import ArktsServer.Lib.OrderedMap
import ArktsServer.Lib.Transition

/-
  The catalog runs of `DefaultWorkspaceSymbolService` before
  it is disposed: the workspaces that are being opened, have
  a run or wait for another one, and the phases that are
  reported.  The counts of a progress are left out.

  Key definitions include:
    * `aggregatePhase`
    * `CatalogService`, `scheduleCatalog`
    * `catalogStep`

  Correctness is proven by:
    * `catalog_runs_safe`
-/

----------
-- Service
----------

namespace ArktsServer

namespace Workspace

open Transition

inductive IndexPhase where
| discovering
| indexing
| ready
| degraded
| cancelled
deriving DecidableEq

def IndexPhase.isTerminal (phase : IndexPhase) : Bool :=
  decide
    (phase = .ready ∨ phase = .degraded ∨ phase = .cancelled)

def aggregatePhase (phases : List IndexPhase) : IndexPhase :=
  if phases.all IndexPhase.isTerminal then
    if phases.contains .degraded then
      .degraded
    else if phases.contains .cancelled then
      .cancelled
    else
      .ready
  else if phases.contains .discovering then
    .discovering
  else
    .indexing

/-
  The maps and sets of the service.  `active` has the runs
  that have begun and not ended, `owed` the workspaces that
  changed after their last run began; with each reported
  phase stands whether no change was outstanding then.
-/
structure CatalogService where
  workspaces : List String
  searchable : List String
  progress : OrderedMap String IndexPhase
  reporting : Bool
  opening : List String
  catalogRuns : List String
  pendingCatalogs : List String
  active : List String
  owed : List String
  reports : List (IndexPhase × Bool)

namespace CatalogService

def new : CatalogService where
  workspaces := []
  searchable := []
  progress := OrderedMap.empty
  reporting := false
  opening := []
  catalogRuns := []
  pendingCatalogs := []
  active := []
  owed := []
  reports := []

variable (state : CatalogService)

/- A change of a workspace that is open or being opened. -/
def outstanding (id : String) : Bool :=
  state.owed.contains id &&
    (state.searchable.contains id || state.opening.contains id)

def isQuiet : Bool :=
  state.owed.all fun id => !state.outstanding id

def report (phase : IndexPhase) : CatalogService :=
  if state.reporting then
    { state with
      reports := state.reports ++ [(phase, state.isQuiet)] }
  else
    state

def reportAggregate : CatalogService :=
  if state.progress.entries.isEmpty then
    state
  else
    state.report (aggregatePhase state.progress.values)

def setProgress
    (id : String)
    (phase : IndexPhase) : CatalogService :=
  { state with progress := state.progress.set id phase }

def discover (ids : List String) : CatalogService :=
  { state with
    workspaces := state.workspaces ++ ids
    progress :=
      ids.foldl
        (fun progress id => progress.set id .discovering)
        state.progress }

def beginOpening (ids : List String) : CatalogService :=
  { state with opening := state.opening ++ ids }

def start (ids : List String) : CatalogService :=
  let state := { state with reporting := true }
  if ids.isEmpty then
    state.report .ready
  else
    (state.discover ids).reportAggregate.beginOpening ids

/- `pendingCatalogs.add`. -/
def await (id : String) : CatalogService :=
  { state with
    pendingCatalogs := state.pendingCatalogs.insert id }

def scheduleCatalog (id : String) : CatalogService :=
  if state.catalogRuns.contains id then
    state.await id
  else
    { state with
      catalogRuns := id :: state.catalogRuns
      active := id :: state.active
      owed := state.owed.filter (· ≠ id) }

/- A change of a workspace, before it is reported. -/
def owe (id : String) : CatalogService :=
  { state.setProgress id .discovering with
    owed := state.owed.insert id }

def fileChanged (id : String) : CatalogService :=
  if state.workspaces.contains id then
    let changed := (state.owe id).reportAggregate
    if state.searchable.contains id then
      changed.scheduleCatalog id
    else
      changed.await id
  else
    state

def workspaceFilesChanged
    (ids : List String) : CatalogService :=
  ids.eraseDups.foldl fileChanged state

def failWorkspace
    (id : String)
    (aborted : Bool) : CatalogService :=
  (state.setProgress id
    (if aborted then .cancelled else .degraded)).reportAggregate

/- An opening ends; `failure` tells if it was aborted. -/
def opened
    (id : String)
    (failure : Option Bool) : CatalogService :=
  match failure with
  | none =>
      { state with
        opening := state.opening.erase id
        searchable := state.searchable.insert id }
        |>.scheduleCatalog id
  | some aborted =>
      let failed := state.failWorkspace id aborted
      { failed with opening := failed.opening.erase id }

/- A run ends; a pending workspace has another one. -/
def finished (id : String) : CatalogService :=
  let ended :=
    { state with
      catalogRuns := state.catalogRuns.filter (· ≠ id)
      active := state.active.erase id }
  if ended.pendingCatalogs.contains id then
    { ended with
      pendingCatalogs :=
        ended.pendingCatalogs.filter (· ≠ id) }
      |>.scheduleCatalog id
  else
    ended

end CatalogService

/- A catalog port that fails at once fails as the next event. -/
inductive CatalogEvent where
| started (ids : List String)
| warned
| opened (id : String) (failure : Option Bool)
| filesChanged (ids : List String)
| progressed (id : String) (phase : IndexPhase)
| failed (id : String) (aborted : Bool)
| finished (id : String)

def catalogStep
    (state : CatalogService) : CatalogEvent → CatalogService
| .started ids => state.start ids
| .warned => state.report (aggregatePhase state.progress.values)
| .opened id failure => state.opened id failure
| .filesChanged ids => state.workspaceFilesChanged ids
| .progressed id phase =>
    (state.setProgress id phase).reportAggregate
| .failed id aborted => state.failWorkspace id aborted
| .finished id => state.finished id

/- What can happen; the progress of a run may come late. -/
def isPossible (state : CatalogService) : CatalogEvent → Bool
| .opened id _ => state.opening.contains id
| .progressed id _ => state.workspaces.contains id
| .failed id _ => state.active.contains id
| .finished id => state.active.contains id
| _ => true

/- No readiness is told of an outstanding change. -/
def isOrderly (state : CatalogService) : CatalogEvent → Bool
| .started [] => state.isQuiet
| .progressed id .ready => !state.outstanding id
| _ => true

----------
-- Serial Runs
----------

namespace CatalogService

variable {state : CatalogService}
variable {id other : String}

/- One run at a time; a change leads to another one. -/
structure NothingForgotten
    (state : CatalogService) : Prop where
  serial : state.active.Nodup
  followed :
    ∀ id, state.outstanding id = true →
      id ∈ state.pendingCatalogs ∧
        (id ∈ state.active ∨ id ∈ state.opening)

def ReadyOnlyQuiet (state : CatalogService) : Prop :=
  ∀ entry ∈ state.reports,
    entry.1 = .ready → entry.2 = true

structure RunsInv (state : CatalogService) : Prop where
  runs : state.active = state.catalogRuns
  serial : state.active.Nodup
  pending : ∀ id ∈ state.owed, id ∈ state.pendingCatalogs
  running :
    ∀ id ∈ state.pendingCatalogs,
      id ∈ state.searchable → id ∈ state.active

theorem outstanding_iff :
    state.outstanding id = true ↔
      id ∈ state.owed ∧
        (id ∈ state.searchable ∨ id ∈ state.opening) := by
  unfold outstanding
  simp only [Bool.and_eq_true, Bool.or_eq_true,
    List.contains_iff_mem]

theorem RunsInv.nothingForgotten
    (hInv : state.RunsInv) : state.NothingForgotten where
  serial := hInv.serial
  followed := by
    intro id hOut
    rcases outstanding_iff.mp hOut with ⟨hOwed, hPlace⟩
    have hPending := hInv.pending id hOwed
    exact ⟨hPending, hPlace.imp_left (hInv.running id hPending)⟩

/- A report changes nothing but the reports. -/
theorem report_eq
    (state : CatalogService)
    (phase : IndexPhase) :
    ∃ reports,
      state.report phase = { state with reports } ∧
        ∀ entry ∈ reports,
          entry ∈ state.reports ∨
            entry = (phase, state.isQuiet) := by
  unfold report
  split
  · refine ⟨_, rfl, fun entry hEntry => ?_⟩
    exact
      (List.mem_append.mp hEntry).imp_right List.mem_singleton.mp
  · exact ⟨state.reports, rfl, fun entry => .inl⟩

theorem reportAggregate_eq
    (state : CatalogService) :
    ∃ reports,
      state.reportAggregate = { state with reports } ∧
        ∀ entry ∈ reports,
          entry ∈ state.reports ∨
            entry =
              (aggregatePhase state.progress.values,
                state.isQuiet) := by
  unfold reportAggregate
  split
  · exact ⟨state.reports, rfl, fun entry => .inl⟩
  · exact report_eq state _

theorem RunsInv.schedule
    (hRuns : state.active = state.catalogRuns)
    (hSerial : state.active.Nodup)
    (hPending :
      ∀ other ∈ state.owed,
        other ≠ id → other ∈ state.pendingCatalogs)
    (hRunning :
      ∀ other ∈ state.pendingCatalogs, other ≠ id →
        other ∈ state.searchable → other ∈ state.active) :
    (state.scheduleCatalog id).RunsInv := by
  unfold scheduleCatalog
  split
  · rename_i hRun
    rw [List.contains_iff_mem, ← hRuns] at hRun
    refine ⟨hRuns, hSerial, ?_, ?_⟩
    · intro other hOwed
      by_cases hSame : other = id
      · exact List.mem_insert_iff.mpr (.inl hSame)
      · exact
          List.mem_insert_iff.mpr
            (.inr (hPending other hOwed hSame))
    · intro other hOther hSearchable
      by_cases hSame : other = id
      · exact hSame ▸ hRun
      · exact
          hRunning other
            ((List.mem_insert_iff.mp hOther).resolve_left hSame)
            hSame hSearchable
  · rename_i hRun
    rw [List.contains_iff_mem, ← hRuns] at hRun
    refine
      ⟨congrArg (id :: ·) hRuns,
        List.nodup_cons.mpr ⟨hRun, hSerial⟩, ?_, ?_⟩
    · intro other hOwed
      rcases List.mem_filter.mp hOwed with ⟨hOwed, hNe⟩
      exact hPending other hOwed (of_decide_eq_true hNe)
    · intro other hOther hSearchable
      by_cases hSame : other = id
      · exact hSame ▸ List.mem_cons_self
      · exact
          List.mem_cons_of_mem _
            (hRunning other hOther hSame hSearchable)

theorem RunsInv.reportAggregate
    (hInv : state.RunsInv) :
    state.reportAggregate.RunsInv := by
  rcases reportAggregate_eq state with ⟨reports, hReport, _⟩
  rw [hReport]
  exact { hInv with }

theorem RunsInv.report
    (hInv : state.RunsInv)
    (phase : IndexPhase) :
    (state.report phase).RunsInv := by
  rcases report_eq state phase with ⟨reports, hReport, _⟩
  rw [hReport]
  exact { hInv with }

theorem RunsInv.fileChanged
    (hInv : state.RunsInv) :
    (state.fileChanged id).RunsInv := by
  have hOwed :
      ∀ other ∈ (state.owe id).owed,
        other ≠ id → other ∈ state.pendingCatalogs := by
    intro other hOther hNe
    exact
      hInv.pending other
        ((List.mem_insert_iff.mp hOther).resolve_left hNe)
  unfold CatalogService.fileChanged
  rcases reportAggregate_eq (state.owe id) with
    ⟨reports, hReport, _⟩
  rw [hReport]
  split
  · split
    · exact
        .schedule hInv.runs hInv.serial hOwed
          fun other hOther _ => hInv.running other hOther
    · rename_i hClosed
      rw [List.contains_iff_mem] at hClosed
      refine ⟨hInv.runs, hInv.serial, ?_, ?_⟩
      · intro other hOther
        by_cases hSame : other = id
        · exact List.mem_insert_iff.mpr (.inl hSame)
        · exact
            List.mem_insert_iff.mpr
              (.inr (hOwed other hOther hSame))
      · intro other hOther hSearchable
        rcases List.mem_insert_iff.mp hOther with rfl | hOther
        · exact absurd hSearchable hClosed
        · exact hInv.running other hOther hSearchable
  · exact hInv

/- An invariant of single changes, through all of them. -/
theorem workspaceFilesChanged_induction
    {Inv : CatalogService → Prop}
    (hStep :
      ∀ state id, Inv state → Inv (state.fileChanged id))
    (hInv : Inv state)
    (ids : List String) :
    Inv (state.workspaceFilesChanged ids) := by
  unfold workspaceFilesChanged
  generalize ids.eraseDups = ids
  induction ids generalizing state with
  | nil => exact hInv
  | cons id ids ih => exact ih (hStep _ _ hInv)

theorem RunsInv.setProgress
    (hInv : state.RunsInv)
    (phase : IndexPhase) :
    (state.setProgress id phase).reportAggregate.RunsInv :=
  RunsInv.reportAggregate { hInv with }

theorem RunsInv.opened
    (hInv : state.RunsInv)
    (failure : Option Bool) :
    (state.opened id failure).RunsInv := by
  cases failure with
  | none =>
    refine
      .schedule hInv.runs hInv.serial
        (fun other hOwed _ => hInv.pending other hOwed) ?_
    intro other hOther hNe hSearchable
    exact
      hInv.running other hOther
        ((List.mem_insert_iff.mp hSearchable).resolve_left hNe)
  | some aborted =>
    exact
      { @RunsInv.setProgress state id hInv
          (if aborted then .cancelled else .degraded) with }

theorem RunsInv.finished
    (hInv : state.RunsInv)
    (hActive : id ∈ state.active) :
    (state.finished id).RunsInv := by
  have hRuns :
      state.active.erase id =
        state.catalogRuns.filter (· ≠ id) := by
    rw [hInv.serial.erase_eq_filter, hInv.runs]
    exact List.filter_congr fun _ _ => (decide_not).symm
  have hSerial := hInv.serial.erase id
  have hRunning :
      ∀ other ∈ state.pendingCatalogs, other ≠ id →
        other ∈ state.searchable →
          other ∈ state.active.erase id := by
    intro other hOther hNe hSearchable
    exact
      (List.mem_erase_of_ne hNe).mpr
        (hInv.running other hOther hSearchable)
  unfold CatalogService.finished
  simp only
  split
  · refine .schedule hRuns hSerial ?_ ?_
    · intro other hOwed hNe
      exact
        List.mem_filter.mpr
          ⟨hInv.pending other hOwed, decide_eq_true hNe⟩
    · intro other hOther hNe hSearchable
      exact
        hRunning other (List.mem_filter.mp hOther).1 hNe
          hSearchable
  · rename_i hIdle
    rw [List.contains_iff_mem] at hIdle
    refine ⟨hRuns, hSerial, hInv.pending, ?_⟩
    intro other hOther
    refine hRunning other hOther ?_
    rintro rfl
    exact hIdle hOther

theorem RunsInv.step
    {event : CatalogEvent}
    (hInv : state.RunsInv)
    (hPossible : isPossible state event = true) :
    (catalogStep state event).RunsInv := by
  cases event with
  | started ids =>
    unfold catalogStep CatalogService.start
    simp only
    split
    · have hReporting :
          RunsInv { state with reporting := true } :=
            { hInv with }
      exact hReporting.report _
    · have hDiscover :
          RunsInv
            (discover { state with reporting := true } ids) :=
              { hInv with }
      exact { hDiscover.reportAggregate with }
  | warned => exact hInv.report _
  | opened id failure => exact hInv.opened failure
  | filesChanged ids =>
    exact
      workspaceFilesChanged_induction
        (fun _ _ hInv => hInv.fileChanged) hInv ids
  | progressed id phase => exact hInv.setProgress phase
  | failed id aborted => exact hInv.setProgress _
  | finished id =>
    exact hInv.finished (List.contains_iff_mem.mp hPossible)

----------
-- Reported Phases
----------

/- An outstanding change keeps its workspace from ready. -/
structure PhaseInv (state : CatalogService) : Prop where
  phases :
    ∀ id, state.outstanding id = true →
      ∃ phase,
        state.progress.get id = some phase ∧ phase ≠ .ready
  reports : state.ReadyOnlyQuiet

theorem all_ready_of_aggregate
    {phases : List IndexPhase}
    (hReady : aggregatePhase phases = .ready) :
    ∀ phase ∈ phases, phase = .ready := by
  unfold aggregatePhase at hReady
  split at hReady
  · rename_i hAll
    split at hReady
    · cases hReady
    · split at hReady
      · cases hReady
      · rename_i hDegraded hCancelled
        intro phase hPhase
        have hTerminal := List.all_eq_true.mp hAll phase hPhase
        rcases of_decide_eq_true hTerminal with
          rfl | rfl | rfl
        · rfl
        · exact
            absurd (List.contains_iff_mem.mpr hPhase) hDegraded
        · exact
            absurd (List.contains_iff_mem.mpr hPhase) hCancelled
  · split at hReady <;> cases hReady

/- All phases are ready only when no change is outstanding. -/
theorem quiet_of_ready
    (hPhases :
      ∀ id, state.outstanding id = true →
        ∃ phase,
          state.progress.get id = some phase ∧ phase ≠ .ready)
    (hReady :
      aggregatePhase state.progress.values = .ready) :
    state.isQuiet = true := by
  refine List.all_eq_true.mpr fun id _ => ?_
  rw [Bool.not_eq_true', ← Bool.not_eq_true]
  intro hOut
  rcases hPhases id hOut with ⟨phase, hPhase, hNot⟩
  exact
    hNot
      (all_ready_of_aggregate hReady phase
        (List.mem_map_of_mem
          (OrderedMap.get_eq_some_iff.mp hPhase)))

theorem PhaseInv.reported
    (hInv : state.PhaseInv)
    {reports : List (IndexPhase × Bool)}
    (hReports :
      ∀ entry ∈ reports,
        entry ∈ state.reports ∨
          entry =
            (aggregatePhase state.progress.values,
              state.isQuiet)) :
    PhaseInv { state with reports } where
  phases := hInv.phases
  reports := by
    intro entry hEntry hReady
    rcases hReports entry hEntry with hOld | rfl
    · exact hInv.reports entry hOld hReady
    · exact quiet_of_ready hInv.phases hReady

theorem PhaseInv.reportAggregate
    (hInv : state.PhaseInv) :
    state.reportAggregate.PhaseInv := by
  rcases reportAggregate_eq state with
    ⟨reports, hReport, hReports⟩
  rw [hReport]
  exact hInv.reported hReports

/- Fewer outstanding changes do no harm. -/
theorem PhaseInv.fewer
    {after : CatalogService}
    (hInv : state.PhaseInv)
    (hOut :
      ∀ id, after.outstanding id = true →
        state.outstanding id = true)
    (hProgress : after.progress = state.progress)
    (hReports : after.reports = state.reports) :
    after.PhaseInv where
  phases := by
    intro id hId
    rw [hProgress]
    exact hInv.phases id (hOut id hId)
  reports := by
    unfold ReadyOnlyQuiet
    rw [hReports]
    exact hInv.reports

theorem PhaseInv.schedule
    (hInv : state.PhaseInv) :
    (state.scheduleCatalog id).PhaseInv := by
  refine hInv.fewer ?_ ?_ ?_
  · intro other hOut
    rw [outstanding_iff] at hOut ⊢
    unfold scheduleCatalog at hOut
    split at hOut
    · exact hOut
    · exact hOut.imp_left fun hOwed => (List.mem_filter.mp hOwed).1
  · unfold scheduleCatalog
    split <;> rfl
  · unfold scheduleCatalog
    split <;> rfl

/- A phase that a workspace has may be set. -/
theorem PhaseInv.setProgress
    (hInv : state.PhaseInv)
    {phase : IndexPhase}
    (hPhase :
      phase = .ready → state.outstanding id = false) :
    (state.setProgress id phase).PhaseInv where
  phases := by
    intro other hOut
    simp only [CatalogService.setProgress, OrderedMap.get_set]
    split
    · rename_i hSame
      refine ⟨phase, rfl, fun hReady => ?_⟩
      have hNone := hPhase hReady
      rw [← hSame] at hNone
      exact Bool.false_ne_true (hNone.symm.trans hOut)
    · exact hInv.phases other hOut
  reports := hInv.reports

theorem PhaseInv.fileChanged
    (hInv : state.PhaseInv) :
    (state.fileChanged id).PhaseInv := by
  have hOwe : (state.owe id).PhaseInv := by
    refine ⟨?_, hInv.reports⟩
    intro other hOut
    simp only [owe, CatalogService.setProgress,
      OrderedMap.get_set]
    split
    · exact ⟨.discovering, rfl, by decide⟩
    · rename_i hNe
      rcases outstanding_iff.mp hOut with ⟨hOwed, hPlace⟩
      exact
        hInv.phases other
          (outstanding_iff.mpr
            ⟨(List.mem_insert_iff.mp hOwed).resolve_left hNe,
              hPlace⟩)
  unfold CatalogService.fileChanged
  split
  · split
    · exact hOwe.reportAggregate.schedule
    · exact { hOwe.reportAggregate with }
  · exact hInv

theorem PhaseInv.failWorkspace
    (hInv : state.PhaseInv)
    (aborted : Bool) :
    (state.failWorkspace id aborted).PhaseInv := by
  refine (hInv.setProgress ?_).reportAggregate
  cases aborted <;> exact fun hReady => by cases hReady

theorem PhaseInv.opened
    (hInv : state.PhaseInv)
    (hOpening : id ∈ state.opening)
    (failure : Option Bool) :
    (state.opened id failure).PhaseInv := by
  cases failure with
  | none =>
    refine PhaseInv.schedule (hInv.fewer ?_ rfl rfl)
    intro other hOut
    rw [outstanding_iff] at hOut ⊢
    refine hOut.imp_right fun hPlace => ?_
    rcases hPlace with hSearchable | hOther
    · rcases List.mem_insert_iff.mp hSearchable with
        rfl | hOld
      · exact .inr hOpening
      · exact .inl hOld
    · exact .inr (List.mem_of_mem_erase hOther)
  | some aborted =>
    refine
      (@PhaseInv.failWorkspace state id hInv aborted).fewer ?_
        rfl rfl
    intro other hOut
    rw [outstanding_iff] at hOut ⊢
    exact
      hOut.imp_right fun hPlace =>
        hPlace.imp_right List.mem_of_mem_erase

theorem PhaseInv.finished
    (hInv : state.PhaseInv) :
    (state.finished id).PhaseInv := by
  unfold CatalogService.finished
  simp only
  split
  · exact PhaseInv.schedule { hInv with }
  · exact { hInv with }

theorem get_discovering
    (ids : List String)
    (progress : OrderedMap String IndexPhase) :
    (ids.foldl
        (fun progress id => progress.set id .discovering)
        progress).get other =
      if other ∈ ids then some .discovering
      else progress.get other := by
  induction ids generalizing progress with
  | nil => simp
  | cons id ids ih =>
    rw [List.foldl_cons, ih, OrderedMap.get_set]
    simp only [List.mem_cons]
    split <;> split <;> simp_all

theorem PhaseInv.start
    (hInv : state.PhaseInv)
    {ids : List String}
    (hOrderly : isOrderly state (.started ids) = true) :
    (state.start ids).PhaseInv := by
  cases ids with
  | nil =>
    change PhaseInv (report { state with reporting := true } _)
    rcases report_eq { state with reporting := true } .ready
      with ⟨reports, hReport, hReports⟩
    rw [hReport]
    refine ⟨hInv.phases, ?_⟩
    intro entry hEntry hReady
    rcases hReports entry hEntry with hOld | rfl
    · exact hInv.reports entry hOld hReady
    · exact hOrderly
  | cons first rest =>
    change
      PhaseInv
        ((discover { state with reporting := true }
          (first :: rest)).reportAggregate.beginOpening _)
    generalize first :: rest = ids
    have hProgress :
        ∀ other, ((discover { state with reporting := true }
            ids).progress).get other =
          if other ∈ ids then some .discovering
          else state.progress.get other :=
      fun other => get_discovering ids state.progress
    have hBegun :
        PhaseInv
          (discover { state with reporting := true } ids) := by
      refine ⟨?_, hInv.reports⟩
      intro other hOut
      rw [hProgress]
      split
      · exact ⟨.discovering, rfl, by decide⟩
      · exact hInv.phases other hOut
    rcases reportAggregate_eq
        (discover { state with reporting := true } ids) with
      ⟨reports, hReport, hReports⟩
    have hAfter := hBegun.reported hReports
    rw [hReport]
    refine ⟨?_, hAfter.reports⟩
    intro other hOut
    by_cases hNew : other ∈ ids
    · refine ⟨.discovering, ?_, by decide⟩
      exact (hProgress other).trans (if_pos hNew)
    · refine hAfter.phases other ?_
      rw [outstanding_iff] at hOut ⊢
      exact
        hOut.imp_right fun hPlace =>
          hPlace.imp_right fun hOther =>
            (List.mem_append.mp hOther).resolve_right hNew

theorem PhaseInv.step
    {event : CatalogEvent}
    (hInv : state.PhaseInv)
    (hPossible : isPossible state event = true)
    (hOrderly : isOrderly state event = true) :
    (catalogStep state event).PhaseInv := by
  cases event with
  | started ids => exact hInv.start hOrderly
  | warned =>
    rcases report_eq state
        (aggregatePhase state.progress.values) with
      ⟨reports, hReport, hReports⟩
    change (state.report _).PhaseInv
    rw [hReport]
    exact hInv.reported hReports
  | opened id failure =>
    exact hInv.opened (List.contains_iff_mem.mp hPossible) failure
  | filesChanged ids =>
    exact
      workspaceFilesChanged_induction
        (fun _ _ hInv => hInv.fileChanged) hInv ids
  | progressed id phase =>
    refine (hInv.setProgress ?_).reportAggregate
    rintro rfl
    exact Bool.not_eq_true' _ ▸ hOrderly
  | failed id aborted => exact hInv.failWorkspace aborted
  | finished id => exact hInv.finished

end CatalogService

----------
-- Whole Runs
----------

/-
  In every run, the runs of a workspace are serial and no
  change is forgotten; where no readiness is told of an
  outstanding change, only a quiet service reports to be
  ready.
-/
theorem catalog_runs_safe
    (events : List CatalogEvent) :
    (Admissible catalogStep
        (fun state event => isPossible state event = true)
        .new events →
      (run catalogStep .new events).NothingForgotten) ∧
    (Admissible catalogStep
        (fun state event =>
          isPossible state event = true ∧
            isOrderly state event = true)
        .new events →
      (run catalogStep .new events).ReadyOnlyQuiet) := by
  constructor
  · intro hEvents
    have hNew : CatalogService.new.RunsInv :=
      ⟨rfl, List.nodup_nil,
        fun _ hOwed => absurd hOwed List.not_mem_nil,
        fun _ hId => absurd hId List.not_mem_nil⟩
    have hInv :=
      run_invariant_of_admissible
        (fun _ _ hInv hPossible =>
          CatalogService.RunsInv.step hInv hPossible)
        hNew hEvents
    exact hInv.nothingForgotten
  · intro hEvents
    have hNew : CatalogService.new.PhaseInv :=
      ⟨fun _ hOut => (by cases hOut),
        fun _ hEntry => absurd hEntry List.not_mem_nil⟩
    have hInv :=
      run_invariant_of_admissible
        (fun _ _ hInv hAllowed =>
          CatalogService.PhaseInv.step hInv hAllowed.1
            hAllowed.2)
        hNew hEvents
    exact hInv.reports

/- A change during a run is served by another run. -/
theorem catalog_runs_safe_sample :
    let events : List CatalogEvent :=
      [.started ["w"], .opened "w" none, .filesChanged ["w"],
        .finished "w", .progressed "w" .ready]
    (run catalogStep .new events).NothingForgotten ∧
      (run catalogStep .new events).ReadyOnlyQuiet :=
  ⟨(catalog_runs_safe _).1 (by decide),
    (catalog_runs_safe _).2 (by decide)⟩

/-
  The first run tells that it is ready after a change, while
  the workspace waits for another run.
-/
theorem not_catalog_runs_safe :
    ∃ events,
      Admissible catalogStep
          (fun state event => isPossible state event = true)
          .new events ∧
        ¬ (run catalogStep .new events).ReadyOnlyQuiet := by
  refine
    ⟨[.started ["w"], .opened "w" none, .filesChanged ["w"],
        .progressed "w" .ready], by decide, ?_⟩
  intro hQuiet
  have hFalse := hQuiet (.ready, false) (by decide) rfl
  cases hFalse

end Workspace

end ArktsServer
