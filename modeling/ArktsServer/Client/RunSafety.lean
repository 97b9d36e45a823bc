import ArktsServer.Client.CatalogSession

/-
  The client on the statuses of one catalog: every status of
  the sidecar passes its checks, and reports in order move
  the watchdog on until the run settles.

  Key definitions include:
    * `Client.Snapshot`, `Client.SnapshotLe`
    * `Client.Reportable`
    * `Client.CatalogRun.noted`
    * `Client.Follows`, `Client.Outcome`

  Correctness is proven by:
    * `Client.reportCatalogStatus_eq_noted`
    * `Client.Follows.noted`, `Client.Outcome.noted`
    * `Client.applyBufferedEvents_follows`
-/

----------
-- Snapshots
----------

namespace ArktsServer

namespace Client

open Sidecar

/- A runtime at the moment in which it writes a status. -/
structure Snapshot where
  runtime : Runtime
  now : Nat

namespace Snapshot

def status (snapshot : Snapshot) : Json :=
  snapshot.runtime.status snapshot.now

def event (snapshot : Snapshot) : Json :=
  catalogProgressEvent snapshot.runtime snapshot.now

def mapped (snapshot : Snapshot) : MappedCatalogStatus :=
  mappedOf snapshot.runtime snapshot.now

def terminal (snapshot : Snapshot) : Bool :=
  isTerminalPhase snapshot.runtime.phase

end Snapshot

/- A later snapshot of the same catalog. -/
structure SnapshotLe (before after : Snapshot) : Prop where
  rank :
    catalogPhaseRank before.runtime.phase ≤
      catalogPhaseRank after.runtime.phase
  time : before.now ≤ after.now
  progress :
    after.terminal = false →
      ProgressLe before.runtime.progress
        after.runtime.progress

theorem SnapshotLe.refl (snapshot : Snapshot) :
    SnapshotLe snapshot snapshot :=
  ⟨Nat.le_refl _, Nat.le_refl _, fun _ => ProgressLe.refl _⟩

theorem isTerminalPhase_iff (phase : Phase) :
    isTerminalPhase phase = true ↔
      catalogPhaseRank phase = 4 := by
  cases phase <;> simp [isTerminalPhase, catalogPhaseRank]

theorem catalogPhaseRank_le (phase : Phase) :
    catalogPhaseRank phase ≤ 4 := by
  cases phase <;> simp [catalogPhaseRank]

/- Behind a terminal phase only terminal phases follow. -/
theorem SnapshotLe.terminal
    {before after : Snapshot}
    (hLe : SnapshotLe before after)
    (hAfter : after.terminal = false) :
    before.terminal = false := by
  cases hBefore : before.terminal with
  | false => rfl
  | true =>
    have hRank := hLe.rank
    rw [(isTerminalPhase_iff _).mp hBefore] at hRank
    have hFour :
        catalogPhaseRank after.runtime.phase = 4 :=
      Nat.le_antisymm (catalogPhaseRank_le _) hRank
    have hTrue : after.terminal = true :=
      (isTerminalPhase_iff _).mpr hFour
    rw [hAfter] at hTrue
    cases hTrue

theorem SnapshotLe.trans
    {first second third : Snapshot}
    (hLeft : SnapshotLe first second)
    (hRight : SnapshotLe second third) :
    SnapshotLe first third where
  rank := hLeft.rank.trans hRight.rank
  time := hLeft.time.trans hRight.time
  progress := by
    intro hThird
    have hSecond := hRight.terminal hThird
    exact (hLeft.progress hSecond).trans (hRight.progress hThird)

/- A status that the client of a catalog can accept. -/
structure Reportable
    (generation : Nat)
    (workspaceIdentity : String)
    (cancelStarted : Bool)
    (snapshot : Snapshot) : Prop where
  countable : Countable snapshot.runtime snapshot.now
  sound : SoundProgress snapshot.runtime.progress
  identity :
    snapshot.runtime.workspaceIdentity =
      some workspaceIdentity
  building :
    snapshot.terminal = false →
      snapshot.runtime.buildingGeneration = some generation
  committed :
    snapshot.runtime.phase = .ready ∨
        snapshot.runtime.phase = .partial_ →
      snapshot.runtime.committedGeneration = generation
  cancelling :
    snapshot.runtime.phase = .cancelling →
      cancelStarted = true
  cancelled :
    snapshot.runtime.phase = .cancelled →
      cancelStarted = true

variable {workspaceIdentity : String}
variable {generation : Nat}

/- Starting to cancel only allows more. -/
theorem Reportable.cancel
    {cancelStarted : Bool}
    {snapshot : Snapshot}
    (hReportable :
      Reportable generation workspaceIdentity cancelStarted
        snapshot) :
    Reportable generation workspaceIdentity true snapshot where
  countable := hReportable.countable
  sound := hReportable.sound
  identity := hReportable.identity
  building := hReportable.building
  committed := hReportable.committed
  cancelling := fun _ => rfl
  cancelled := fun _ => rfl

----------
-- Reporting
----------

/- The run that has taken note of a status. -/
def CatalogRun.noted
    (run : CatalogRun)
    (snapshot : Snapshot) : CatalogRun :=
  if run.settled then
    run
  else
    let run :=
      { run with
        reported := run.reported ++ [snapshot.mapped.progress] }
    if snapshot.terminal then
      { run with
        settled := true
        resolved := run.resolved + 1 }
    else if snapshot.runtime.phase = .cancelling then
      run
    else
      { run with lastProgress := some snapshot.mapped.mark }

/- The last report is not ahead of what is still to come. -/
def Follows
    (run : CatalogRun)
    (later : List Snapshot) : Prop :=
  run.settled = false →
    ∀ mark,
      run.lastProgress = some mark →
        ∃ snapshot : Snapshot,
          mark = snapshot.mapped.mark ∧
            ∀ next ∈ later, SnapshotLe snapshot next

variable {run : CatalogRun}

theorem Follows.subset
    {later later' : List Snapshot}
    (hFollows : Follows run later)
    (hSubset : ∀ next ∈ later', next ∈ later) :
    Follows run later' := by
  intro hOpen mark hMark
  rcases hFollows hOpen mark hMark with
    ⟨snapshot, hSnapshot, hLater⟩
  refine ⟨snapshot, hSnapshot, ?_⟩
  intro next hNext
  exact hLater next (hSubset next hNext)

section Reporting

variable {generation : Nat}
variable {workspaceIdentity : String}
variable {run : CatalogRun}
variable {snapshot : Snapshot}

theorem validate_reportable
    (hGeneration : run.generation = some generation)
    (hReportable :
      Reportable generation workspaceIdentity
        run.cancelStarted snapshot) :
    run.validateCatalogGeneration snapshot.mapped =
      Except.ok () := by
  have hTerminal :
      snapshot.mapped.terminal = snapshot.terminal :=
    rfl
  have hPhase :
      snapshot.mapped.phase = snapshot.runtime.phase :=
    rfl
  have hBuilding :
      snapshot.mapped.buildingGeneration =
        snapshot.runtime.buildingGeneration :=
    rfl
  have hCommitted :
      snapshot.mapped.committedGeneration =
        snapshot.runtime.committedGeneration :=
    rfl
  rw [CatalogRun.validateCatalogGeneration, hTerminal, hPhase,
    hBuilding, hCommitted, hGeneration, if_neg (by simp)]
  split
  · rename_i hRunning
    rw [if_neg]
    · rfl
    · rw [hReportable.building hRunning]
      exact not_not.mpr rfl
  · rw [if_neg, if_neg]
    · rfl
    · rintro ⟨hCancelled, hNot⟩
      rw [hReportable.cancelled hCancelled] at hNot
      cases hNot
    · rintro ⟨hReady, hNot⟩
      rw [hReportable.committed hReady] at hNot
      exact hNot rfl

/- A status in order is noted. -/
theorem reportCatalogStatus_eq_noted
    (hGeneration : run.generation = some generation)
    (hReportable :
      Reportable generation workspaceIdentity
        run.cancelStarted snapshot)
    (hFollows :
      snapshot.runtime.phase ≠ .cancelling →
        Follows run [snapshot]) :
    run.reportCatalogStatus (some snapshot.status) =
      Except.ok (run.noted snapshot) := by
  have hMap :
      mapCatalogStatus (some snapshot.status) =
        Except.ok snapshot.mapped :=
    mapCatalogStatus_status hReportable.countable
      hReportable.sound
  have hValid := validate_reportable hGeneration hReportable
  have hReport :
      run.reportCatalogStatus (some snapshot.status) =
        run.reportCatalogProgress snapshot.mapped := by
    simp only [CatalogRun.reportCatalogStatus,
      CatalogRun.check, hMap, hValid, Except.mapError, bind,
      Except.bind]
  rw [hReport, CatalogRun.reportCatalogProgress, CatalogRun.noted]
  by_cases hSettled : run.settled = true
  · rw [if_pos hSettled, if_pos hSettled]
    rfl
  · rw [if_neg hSettled, if_neg hSettled]
    have hTerminal :
        snapshot.mapped.terminal = snapshot.terminal :=
      rfl
    dsimp only
    rw [hTerminal]
    cases hEnds : snapshot.terminal with
    | true => rfl
    | false =>
      rw [if_pos rfl, if_neg Bool.false_ne_true]
      by_cases hCancelling : snapshot.runtime.phase = .cancelling
      · have hStarted := hReportable.cancelling hCancelling
        rw [if_pos ⟨hStarted, hCancelling⟩, if_pos hCancelling]
        rfl
      · have hNot :
            ¬ (run.cancelStarted = true ∧
              snapshot.mapped.phase = .cancelling) :=
          fun hBoth => hCancelling hBoth.2
        rw [if_neg hNot, if_neg hCancelling,
          CatalogRun.advanceCatalogWatchdog]
        have hOpen : run.settled = false := by
          simpa using hSettled
        cases hLast : run.lastProgress with
        | none => rfl
        | some mark =>
          rcases hFollows hCancelling hOpen mark
              hLast with
            ⟨previous, rfl, hLater⟩
          have hLe := hLater snapshot List.mem_cons_self
          have hMonotonic :=
            assertMonotonic_of_progressLe hLe.rank
              (hLe.progress hEnds) hLe.time
          simp only [CatalogRun.check, Snapshot.mapped,
            hMonotonic, Except.mapError, bind,
            Except.bind]
          rfl

/- What comes behind a noted status still follows. -/
theorem Follows.noted
    {later : List Snapshot}
    (hFollows : Follows run later)
    (hOrder : ∀ next ∈ later, SnapshotLe snapshot next) :
    Follows (run.noted snapshot) later := by
  simp only [CatalogRun.noted]
  split
  · exact hFollows
  · split
    · intro hOpen
      cases hOpen
    · split
      · exact hFollows
      · intro _ mark hMark
        cases hMark
        exact ⟨snapshot, rfl, hOrder⟩

end Reporting

----------
-- Noted Runs
----------

def isTerminalProgress
    (progress : WorkspaceIndexProgress) : Bool :=
  match progress.phase with
  | .discovering => false
  | .indexing => false
  | .ready => true
  | .degraded => true
  | .cancelled => true

/- Terminal statuses are reported as terminal progress. -/
theorem isTerminalProgress_mapped (snapshot : Snapshot) :
    isTerminalProgress snapshot.mapped.progress =
      snapshot.terminal := by
  simp only [isTerminalProgress, Snapshot.mapped, mappedOf,
    mappedStatus, statusFields, Snapshot.terminal]
  cases snapshot.runtime.phase <;>
    cases snapshot.runtime.progress.totalFiles <;> rfl

/- The promise is open, or has settled at its last report. -/
def Outcome (run : CatalogRun) : Prop :=
  run.rejected = [] ∧
    ((run.settled = false ∧
        run.resolved = 0 ∧
        ∀ progress ∈ run.reported,
          isTerminalProgress progress = false) ∨
      (run.settled = true ∧
        run.resolved = 1 ∧
        ∃ earlier last,
          run.reported = earlier ++ [last] ∧
            (∀ progress ∈ earlier,
              isTerminalProgress progress = false) ∧
            isTerminalProgress last = true))

namespace CatalogRun

variable {run : CatalogRun}
variable (snapshot : Snapshot)

theorem noted_settled (hSettled : run.settled = true) :
    run.noted snapshot = run :=
  if_pos hSettled

theorem noted_terminal
    {snapshot : Snapshot}
    (hTerminal : snapshot.terminal = true) :
    (run.noted snapshot).settled = true := by
  simp only [noted, hTerminal]
  split
  · assumption
  · rfl

@[simp] theorem noted_generation :
    (run.noted snapshot).generation = run.generation := by
  simp only [noted]
  split
  · rfl
  · split
    · rfl
    · split
      · rfl
      · rfl

@[simp] theorem noted_cancelStarted :
    (run.noted snapshot).cancelStarted =
      run.cancelStarted := by
  simp only [noted]
  split
  · rfl
  · split
    · rfl
    · split
      · rfl
      · rfl

@[simp] theorem noted_cancelRequests :
    (run.noted snapshot).cancelRequests =
      run.cancelRequests := by
  simp only [noted]
  split
  · rfl
  · split
    · rfl
    · split
      · rfl
      · rfl

@[simp] theorem noted_bufferedEvents :
    (run.noted snapshot).bufferedEvents =
      run.bufferedEvents := by
  simp only [noted]
  split
  · rfl
  · split
    · rfl
    · split
      · rfl
      · rfl

end CatalogRun

theorem Outcome.noted
    (hOutcome : Outcome run)
    (snapshot : Snapshot) :
    Outcome (run.noted snapshot) := by
  rcases hOutcome with
    ⟨hRejected, ⟨hOpen, hResolved, hReported⟩ | hSettled⟩
  · have hMore
        (hRunning : snapshot.terminal = false) :
        ∀ progress ∈
            run.reported ++ [snapshot.mapped.progress],
          isTerminalProgress progress = false := by
      intro progress hProgress
      rcases List.mem_append.mp hProgress with hOld | hNew
      · exact hReported progress hOld
      · rw [List.mem_singleton.mp hNew,
          isTerminalProgress_mapped]
        exact hRunning
    simp only [CatalogRun.noted, hOpen, Bool.false_eq_true,
      if_false]
    cases hEnds : snapshot.terminal with
    | true =>
      refine ⟨hRejected, Or.inr ⟨rfl, ?_, ?_⟩⟩
      · simp [hResolved]
      · refine
          ⟨run.reported, snapshot.mapped.progress, rfl,
            hReported, ?_⟩
        rw [isTerminalProgress_mapped]
        exact hEnds
    | false =>
      by_cases hCancelling : snapshot.runtime.phase = .cancelling
      · simp only [hCancelling, if_true]
        exact ⟨hRejected, Or.inl ⟨rfl, hResolved, hMore hEnds⟩⟩
      · simp only [hCancelling, if_false]
        exact ⟨hRejected, Or.inl ⟨rfl, hResolved, hMore hEnds⟩⟩
  · rw [CatalogRun.noted_settled snapshot hSettled.1]
    exact ⟨hRejected, Or.inr hSettled⟩

----------
-- Events
----------

theorem eventParam_status (snapshot : Snapshot) :
    CatalogRun.eventParam snapshot.event "status" =
      some snapshot.status :=
  rfl

theorem eventIdentity_event
    {cancelStarted : Bool}
    {snapshot : Snapshot}
    (hReportable :
      Reportable generation workspaceIdentity cancelStarted
        snapshot) :
    CatalogRun.eventIdentity snapshot.event =
      some workspaceIdentity := by
  have hParam :
      CatalogRun.eventParam snapshot.event
          "workspaceIdentity" =
        some
          (.ofOption .str snapshot.runtime.workspaceIdentity) :=
    rfl
  rw [CatalogRun.eventIdentity, hParam, hReportable.identity]
  rfl

theorem isTerminalEvent_event (snapshot : Snapshot) :
    CatalogSession.isTerminalEvent snapshot.event =
      snapshot.terminal := by
  have hPhase :
      (CatalogRun.eventParam snapshot.event "status").bind
          (fun status => status.field "phase") =
        some (.str snapshot.runtime.phase.name) :=
    rfl
  rw [CatalogSession.isTerminalEvent, hPhase]
  simp only [isCatalogPhase_name]
  rfl

/- The run behind buffered events. -/
def CatalogRun.notedAll
    (run : CatalogRun)
    (snapshots : List Snapshot) : CatalogRun :=
  snapshots.foldl CatalogRun.noted run

theorem CatalogRun.notedAll_settled
    (hSettled : run.settled = true)
    (snapshots : List Snapshot) :
    run.notedAll snapshots = run := by
  induction snapshots with
  | nil => rfl
  | cons snapshot rest ih =>
    simp only [CatalogRun.notedAll, List.foldl_cons] at ih ⊢
    rw [CatalogRun.noted_settled snapshot hSettled]
    exact ih

section NotedAll

variable {run : CatalogRun}

theorem CatalogRun.notedAll_cons
    (snapshot : Snapshot)
    (rest : List Snapshot) :
    run.notedAll (snapshot :: rest) =
      (run.noted snapshot).notedAll rest :=
  rfl

/- What noting a status keeps, noting many keeps. -/
theorem CatalogRun.notedAll_keeps
    {Value : Type}
    {read : CatalogRun → Value}
    (hNoted :
      ∀ (run : CatalogRun) (snapshot : Snapshot),
        read (run.noted snapshot) = read run)
    (snapshots : List Snapshot) :
    read (run.notedAll snapshots) = read run := by
  induction snapshots generalizing run with
  | nil => rfl
  | cons snapshot rest ih =>
    rw [CatalogRun.notedAll_cons, ih, hNoted]

theorem Outcome.notedAll
    (hOutcome : Outcome run)
    (snapshots : List Snapshot) :
    Outcome (run.notedAll snapshots) := by
  induction snapshots generalizing run with
  | nil => exact hOutcome
  | cons snapshot rest ih => exact ih (hOutcome.noted snapshot)

/- A terminal status among many settles the run. -/
theorem CatalogRun.notedAll_terminal
    {snapshots : List Snapshot}
    {snapshot : Snapshot}
    (hMem : snapshot ∈ snapshots)
    (hTerminal : snapshot.terminal = true) :
    (run.notedAll snapshots).settled = true := by
  induction snapshots generalizing run with
  | nil => cases hMem
  | cons first rest ih =>
    rw [CatalogRun.notedAll_cons]
    rcases List.mem_cons.mp hMem with rfl | hRest
    · have hSettled :
          (run.noted snapshot).settled = true :=
        CatalogRun.noted_terminal hTerminal
      rw [CatalogRun.notedAll_settled hSettled]
      exact hSettled
    · exact ih hRest

end NotedAll

/- Buffered events in order are applied in order. -/
theorem applyBufferedEvents_follows
    (snapshots : List Snapshot)
    {later : List Snapshot}
    (hGeneration : run.generation = some generation)
    (hReportable :
      ∀ snapshot ∈ snapshots,
        Reportable generation workspaceIdentity
          run.cancelStarted snapshot)
    (hFollows : Follows run (snapshots ++ later))
    (hOrder : (snapshots ++ later).Pairwise SnapshotLe) :
    CatalogRun.applyBufferedEvents
        (snapshots.map Snapshot.event) run =
        Except.ok (run.notedAll snapshots) ∧
      Follows (run.notedAll snapshots) later := by
  induction snapshots generalizing run with
  | nil => exact ⟨rfl, hFollows⟩
  | cons snapshot rest ih =>
    have hOrders := List.pairwise_cons.mp hOrder
    have hNoted :=
      reportCatalogStatus_eq_noted hGeneration
        (hReportable snapshot List.mem_cons_self)
        fun _ =>
          hFollows.subset fun next hNext => by
            rw [List.mem_singleton.mp hNext]
            exact List.mem_cons_self
    have hLater :
        Follows (run.noted snapshot) (rest ++ later) := by
      apply Follows.noted _ hOrders.1
      apply hFollows.subset
      intro next hNext
      exact List.mem_cons_of_mem _ hNext
    have hStarted :
        (run.noted snapshot).generation = some generation :=
      (CatalogRun.noted_generation snapshot).trans hGeneration
    have hOthers :
        ∀ other ∈ rest,
          Reportable generation workspaceIdentity
            (run.noted snapshot).cancelStarted other := by
      intro other hOther
      rw [CatalogRun.noted_cancelStarted]
      exact hReportable other (List.mem_cons_of_mem _ hOther)
    have hRest := ih hStarted hOthers hLater hOrders.2
    rw [List.map_cons, CatalogRun.applyBufferedEvents]
    by_cases hSettled : run.settled = true
    · rw [if_pos hSettled]
      rw [CatalogRun.notedAll_settled hSettled]
      refine ⟨rfl, ?_⟩
      intro hOpen
      rw [hSettled] at hOpen
      cases hOpen
    · rw [if_neg hSettled, CatalogRun.applyCatalogEvent,
        eventParam_status, hNoted]
      exact hRest

----------
-- Begun Runs
----------

/- The run that knows its generation. -/
def acceptedRun
    (client : CatalogRun)
    (generation : Nat) : CatalogRun :=
  { client with generation := some generation }

/- The run that has noted the start status. -/
def openedRun
    (client : CatalogRun)
    (generation : Nat)
    (snapshot : Snapshot) : CatalogRun :=
  { (acceptedRun client generation).noted snapshot with
    bufferedEvents := [] }

/- The run behind the start response and its buffer. -/
def begunRun
    (client : CatalogRun)
    (generation : Nat)
    (snapshot : Snapshot)
    (buffer : List Snapshot) : CatalogRun :=
  (openedRun client generation snapshot).notedAll buffer

section BegunRun

variable (client : CatalogRun)
variable (generation : Nat)
variable (snapshot : Snapshot)
variable (buffer : List Snapshot)

theorem begunRun_cancelStarted :
    (begunRun client generation snapshot
        buffer).cancelStarted =
      client.cancelStarted :=
  (CatalogRun.notedAll_keeps
    (fun run other => run.noted_cancelStarted other)
    buffer).trans
    (CatalogRun.noted_cancelStarted snapshot)

theorem begunRun_cancelRequests :
    (begunRun client generation snapshot
        buffer).cancelRequests =
      client.cancelRequests :=
  (CatalogRun.notedAll_keeps
    (fun run other => run.noted_cancelRequests other)
    buffer).trans
    (CatalogRun.noted_cancelRequests snapshot)

theorem begunRun_generation :
    (begunRun client generation snapshot
        buffer).generation =
      some generation :=
  (CatalogRun.notedAll_keeps
    (fun run other => run.noted_generation other)
    buffer).trans
    (CatalogRun.noted_generation snapshot)

theorem begunRun_bufferedEvents :
    (begunRun client generation snapshot
        buffer).bufferedEvents =
      [] :=
  CatalogRun.notedAll_keeps
    (fun run other => run.noted_bufferedEvents other)
    buffer

end BegunRun

end Client

end ArktsServer
