import ArktsServer.Store.CacheSafety
import ArktsServer.Lib.Pagination

/-
  The automatic mode of the cache collector: every run goes
  on behind the cursor that the run before it has persisted,
  and an empty cursor starts a new cycle.  A cursor with a
  slash or a backslash in it is refused.

  Key definitions include:
    * `AutoState`, `AutoRun`, `acceptsCursor`
    * `automaticRun`, `AutoTrace`
    * `AutoTrace.Completes`

  Correctness is proven by:
    * `sweep_keys`
    * `AutoTrace.completes_iff_separated`
-/

namespace ArktsServer

namespace CacheGc

open Pagination

----------
-- Runs
----------

/- `.gc-auto.json`. -/
structure AutoState where
  schema : Nat := 0
  cursor : String := ""
  completedMs : Nat := 0
deriving DecidableEq

abbrev AutoFile :=
  Option (MetadataFile AutoState)

/- The file, or the default if it cannot be read. -/
def readAutoState (file : AutoFile) : AutoState :=
  match MetadataFile.readJson file with
  | Except.ok state => state
  | Except.error _ => {}

/- The clock, read twice for the cooldown and at the end. -/
structure AutoReadings where
  past : Nat
  elapsed : Nat
  completed : Nat

/- What surrounds one run. -/
structure AutoRun where
  around : Surroundings
  autoLock : LockFile
  clock : AutoReadings
  writeState : Option String
  writeReport : Option String

structure AutoOutcome where
  report : Except String Report
  file : AutoFile
  state : State

/- A cursor that a run goes on from. -/
def acceptsCursor (cursor : String) : Bool :=
  decide (byteLength cursor ≤ 4096) &&
    !containsAny cursor ['/', '\\']

def coolingDown
    (clock : AutoReadings)
    (intervalMs : Nat)
    (saved : AutoState) : Bool :=
  saved.schema == 1 && saved.cursor == "" &&
    decide (saved.completedMs ≤ clock.past) &&
    decide (clock.elapsed - saved.completedMs < intervalMs)

/- The policy of a run: it goes on behind the cursor. -/
def Policy.resumed
    (policy : Policy)
    (saved : AutoState) : Policy :=
  if saved.schema == 1 && acceptsCursor saved.cursor then
    { policy with after := saved.cursor }
  else
    policy

/- What a run persists. -/
def savedState
    (clock : AutoReadings)
    (report : Report) : AutoState where
  schema := 1
  cursor := report.nextCursor.getD ""
  completedMs :=
    if report.nextCursor.isNone then clock.completed else 0

def failedIssue
    (text : String) : Option String → List String
| none => []
| some error => [text ++ error]

/- `collect` with the cursor that was persisted. -/
def collectResumed
    (host : Host)
    (policy : Policy)
    (one : AutoRun)
    (file : AutoFile)
    (state : State) : AutoOutcome :=
  let collection :=
    collect host (policy.resumed (readAutoState file))
      one.around state
  match collection.report with
  | Except.error error =>
      ⟨Except.error error, file, collection.state⟩
  | Except.ok report =>
      if report.status == "busy" then
        ⟨Except.ok report, file, collection.state⟩
      else
        { report :=
            Except.ok
              { report with
                issues :=
                  report.issues
                    ++ failedIssue
                      "automatic-state-write-failed: "
                      one.writeState
                    ++ failedIssue
                      "automatic-report-write-failed: "
                      one.writeReport }
          file :=
            if one.writeState.isSome then file
            else
              some (.plain (Except.ok
                (savedState one.clock report)))
          state := collection.state }

/- `automatic::run`. -/
def automaticRun
    (host : Host)
    (policy : Policy)
    (intervalMs : Nat)
    (one : AutoRun)
    (file : AutoFile)
    (state : State) : AutoOutcome :=
  if !policy.apply || policy.includeLegacy then
    ⟨Except.error
      "automatic mode requires apply without legacy opt-in",
      file, state⟩
  else
    match one.around.cache, one.autoLock with
    | .absent, _ =>
        let collection := collect host policy one.around state
        ⟨collection.report, file, collection.state⟩
    | .faulty error _, _ => ⟨Except.error error, file, state⟩
    | .present _, .faulty error =>
        ⟨Except.error error, file, state⟩
    | .present _, .held =>
        ⟨Except.ok { apply := true, status := "busy" }, file,
          state⟩
    | .present _, _ =>
        if coolingDown one.clock intervalMs
            (readAutoState file) then
          ⟨Except.ok { apply := true, status := "cooldown" },
            file, state⟩
        else
          collectResumed host policy one file state

----------
-- Traces
----------

/- A program of runs, from a first file and state. -/
structure AutoTrace where
  host : Host
  policy : Policy
  intervalMs : Nat
  runs : Nat → AutoRun
  file : AutoFile
  state : State

namespace AutoTrace

variable (trace : AutoTrace)

/- The persisted file and the state before a run. -/
def before : Nat → AutoFile × State
| 0 => (trace.file, trace.state)
| run + 1 =>
    let last := before run
    let outcome :=
      automaticRun trace.host trace.policy trace.intervalMs
        (trace.runs run) last.1 last.2
    (outcome.file, outcome.state)

def outcome (run : Nat) : AutoOutcome :=
  automaticRun trace.host trace.policy trace.intervalMs
    (trace.runs run) (trace.before run).1 (trace.before run).2

/- The persisted cursor before a run. -/
def cursor (run : Nat) : String :=
  (readAutoState (trace.before run).1).cursor

/- The names that a run reports on. -/
def scanned (run : Nat) : List String :=
  match (trace.outcome run).report with
  | Except.ok report => report.entries.map (·.key)
  | Except.error _ => []

/-
  The directory holds the same names in every run, and the
  runs succeed, in whatever order they list the names.
-/
structure Undisturbed (names : List String) : Prop where
  named : ∀ name ∈ names, name ≠ ""
  start : trace.policy.after = ""
  cache : ∀ run, (trace.runs run).around.cache = .present ()
  listed :
    ∀ run, ∃ listing,
      (trace.runs run).around.workspaces = .present listing ∧
        listing.names.Perm names
  succeeded :
    ∀ run, ∃ report,
      (trace.outcome run).report = Except.ok report ∧
        report.status ≠ "busy" ∧ report.status ≠ "cooldown"
  saved : ∀ run, (trace.runs run).writeState = none

/- A cycle of runs that scans every name once, in order. -/
structure Completes
    (names : List String)
    (runs : Nat) : Prop where
  positive : 0 < runs
  ends : trace.cursor runs = ""
  inside :
    ∀ run, 0 < run → run < runs → trace.cursor run ≠ ""
  scans :
    (List.range runs).flatMap trace.scanned =
      names.insertionSort (· ≤ ·)

end AutoTrace

/-
  No page of the sorted names ends with a name whose cursor
  is refused, or with one that reads like its successor.
-/
def SeparatedPages
    (limit : Nat)
    (names : List String) : Prop :=
  Separated (names.insertionSort (· ≤ ·)) limit acceptsCursor

----------
-- Reports
----------

/- The keys that the first loop has gathered. -/
def Inspection.keys (gathered : Inspection) : List String :=
  gathered.entries.map (·.key)
    ++ gathered.candidates.map (·.entry.key)

theorem inspectOne_keys
    (host : Host)
    (policy : Policy)
    (around : Surroundings)
    (gathered : Inspection)
    (name : String) :
    (inspectOne host policy around gathered name).keys.Perm
      (gathered.keys ++ [name]) := by
  unfold inspectOne Inspection.keys
  cases hInspect :
      inspectEntry host policy gathered.state
        (around.evidence · name) name with
  | ok found =>
    have hKey : found.entry.key = name :=
      (inspectEntry_seen host hInspect).1.key
    dsimp only
    rw [List.map_append, List.map_singleton, hKey,
      List.append_assoc]
  | error reason =>
    unfold protectEntry
    dsimp only
    rw [List.map_append, List.map_singleton,
      List.append_assoc, List.append_assoc]
    exact List.perm_append_comm.append_left _

theorem inspectAll_keys
    (host : Host)
    (policy : Policy)
    (around : Surroundings)
    (names : List String)
    (gathered : Inspection) :
    (names.foldl (inspectOne host policy around)
        gathered).keys.Perm
      (gathered.keys ++ names) := by
  induction names generalizing gathered with
  | nil =>
    rw [List.append_nil]
    exact List.Perm.refl _
  | cons name names ih =>
    rw [List.foldl_cons]
    refine (ih _).trans ?_
    have hOne :=
      (inspectOne_keys host policy around gathered
        name).append_right names
    rw [List.append_assoc] at hOne
    exact hOne

theorem pendingNames_sorted
    (policy : Policy)
    (names : List String) :
    (pendingNames policy names).Pairwise (· ≤ ·) :=
  (List.pairwise_insertionSort (· ≤ ·) names).filter _

variable {policy : Policy}
variable {host : Host}
variable {around : Surroundings}
variable {state : State}
variable {report : Report}

/- A report lists the names that were inspected, in order. -/
theorem sweep_keys
    {trashResults : List (String × String)}
    {names : List String}
    (hReport :
      (sweep host policy around trashResults names
        state).report = Except.ok report) :
    report.entries.map (·.key) =
      (pendingNames policy names).take policy.limit := by
  unfold sweep at hReport
  dsimp only at hReport
  injection hReport with hReport
  subst hReport
  dsimp only
  generalize hGathered :
    inspectAll host policy around state names = gathered
  generalize inventoryComplete policy names gathered = complete
  have hKeys :
      gathered.keys.Perm
        ((pendingNames policy names).take policy.limit) := by
    rw [← hGathered]
    exact inspectAll_keys host policy around _ _
  have hDecided :=
    decideAll_candidates host policy around complete
      (sortCandidates gathered.candidates)
      gathered.observedBytes gathered.state
  generalize
    decideAll host policy around complete
      (sortCandidates gathered.candidates)
      gathered.observedBytes gathered.state
    = decisions at hDecided
  have hDecisionKeys :
      (decisions.map (·.entry)).map (·.key) =
        (sortCandidates gathered.candidates).map
          (·.entry.key) := by
    rw [← hDecided, List.map_map, List.map_map]
    rfl
  have hAll :
      (gathered.entries
          ++ decisions.map (·.entry)).map (·.key) |>.Perm
        ((pendingNames policy names).take policy.limit) := by
    rw [List.map_append, hDecisionKeys]
    refine List.Perm.trans ?_ hKeys
    exact ((List.perm_insertionSort _ _).map _).append_left _
  have hSorted :
      ((sortEntries
          (gathered.entries ++ decisions.map (·.entry))).map
        (·.key)).Pairwise (· ≤ ·) := by
    rw [List.pairwise_map]
    exact List.pairwise_insertionSort _ _
  refine
    List.Perm.eq_of_pairwise
      (fun _ _ _ _ hLeft hRight => le_antisymm hLeft hRight)
      hSorted
      ((pendingNames_sorted policy names).sublist
        (List.take_sublist _ _)) ?_
  exact ((List.perm_insertionSort _ _).map _).trans hAll

theorem sweep_nextCursor
    {trashResults : List (String × String)}
    {names : List String}
    (hReport :
      (sweep host policy around trashResults names
        state).report = Except.ok report) :
    report.nextCursor = nextCursor policy names := by
  unfold sweep at hReport
  dsimp only at hReport
  injection hReport with hReport
  subst hReport
  rfl

/- A collection that is not busy has swept the names. -/
theorem collect_swept
    {listing : Listing}
    (hCache : around.cache = .present ())
    (hListing : around.workspaces = .present listing)
    (hReport :
      (collect host policy around state).report =
        Except.ok report)
    (hBusy : report.status ≠ "busy") :
    policy.limit ≠ 0 ∧
      report.entries.map (·.key) =
        (pendingNames policy listing.names).take
          policy.limit ∧
      report.nextCursor =
        nextCursor policy listing.names := by
  have hSwept :
      ∀ trashResults other,
        (collectEntries host policy around trashResults
          other).report = Except.ok report →
        report.entries.map (·.key) =
          (pendingNames policy listing.names).take policy.limit ∧
        report.nextCursor = nextCursor policy listing.names := by
    intro trashResults other hEntries
    unfold collectEntries at hEntries
    rw [hListing] at hEntries
    exact ⟨sweep_keys hEntries, sweep_nextCursor hEntries⟩
  unfold collect at hReport
  by_cases hLimit : policy.limit = 0
  · rw [if_pos hLimit] at hReport
    cases hReport
  · rw [if_neg hLimit, hCache] at hReport
    dsimp only at hReport
    refine ⟨hLimit, ?_⟩
    split at hReport
    · split at hReport
      · cases hReport
      · injection hReport with hReport
        subst hReport
        exact absurd rfl hBusy
      · cases hReport
      · exact hSwept _ _ hReport
      · exact hSwept _ _ hReport
    · exact hSwept _ _ hReport

----------
-- Cycles of Runs
----------

theorem insertionSort_of_perm
    {left right : List String}
    (hPerm : left.Perm right) :
    left.insertionSort (· ≤ ·) =
      right.insertionSort (· ≤ ·) := by
  refine
    List.Perm.eq_of_pairwise
      (fun _ _ _ _ hLeft hRight => le_antisymm hLeft hRight)
      (List.pairwise_insertionSort _ _)
      (List.pairwise_insertionSort _ _) ?_
  exact
    (List.perm_insertionSort _ _).trans
      (hPerm.trans (List.perm_insertionSort _ _).symm)

theorem pendingNames_eq
    {saved : AutoState}
    (hStart : policy.after = "")
    (hSchema : saved.schema = 1 ∨ saved.cursor = "")
    {listed names : List String}
    (hPerm : listed.Perm names) :
    pendingNames (policy.resumed saved) listed =
      pending (names.insertionSort (· ≤ ·)) ""
        acceptsCursor saved.cursor := by
  have hAfter :
      (policy.resumed saved).after =
        resume "" acceptsCursor saved.cursor := by
    unfold Policy.resumed resume
    by_cases hAccept : acceptsCursor saved.cursor = true
    · rw [hAccept, Bool.and_true, if_pos rfl]
      by_cases hOne : saved.schema = 1
      · rw [hOne]
        rfl
      · rw [if_neg (by simpa using hOne), hStart]
        exact (hSchema.resolve_left hOne).symm
    · rw [Bool.eq_false_iff.mpr hAccept, Bool.and_false]
      exact hStart
  unfold pendingNames pending
  rw [hAfter, insertionSort_of_perm hPerm]

namespace AutoTrace

variable {trace : AutoTrace} {names : List String}

/- A run that is neither refused, busy nor cooling down. -/
theorem Undisturbed.outcome_eq
    (hTrace : trace.Undisturbed names)
    (run : Nat) :
    trace.outcome run =
      collectResumed trace.host trace.policy
        (trace.runs run) (trace.before run).1
        (trace.before run).2 := by
  rcases hTrace.succeeded run with
    ⟨final, hFinal, hBusy, hCooldown⟩
  have hCache := hTrace.cache run
  unfold outcome automaticRun at hFinal ⊢
  rw [hCache] at hFinal ⊢
  split at hFinal
  · cases hFinal
  · next hMode =>
    have hWarm :
        ∀ other : AutoOutcome,
          (if coolingDown (trace.runs run).clock
              trace.intervalMs
              (readAutoState (trace.before run).1) = true then
            ⟨Except.ok
              { apply := true, status := "cooldown" },
              (trace.before run).1, (trace.before run).2⟩
          else other).report = Except.ok final →
          coolingDown (trace.runs run).clock trace.intervalMs
            (readAutoState (trace.before run).1) = false := by
      intro other hReport
      by_contra hCooling
      rw [Bool.not_eq_false] at hCooling
      rw [if_pos hCooling] at hReport
      injection hReport with hReport
      subst hReport
      exact hCooldown rfl
    rw [if_neg hMode]
    cases hLock : (trace.runs run).autoLock with
    | faulty error =>
      rw [hLock] at hFinal
      cases hFinal
    | held =>
      rw [hLock] at hFinal
      injection hFinal with hFinal
      subst hFinal
      exact absurd rfl hBusy
    | absent =>
      rw [hLock] at hFinal
      dsimp only at hFinal ⊢
      rw [hWarm _ hFinal]
      rfl
    | free =>
      rw [hLock] at hFinal
      dsimp only at hFinal ⊢
      rw [hWarm _ hFinal]
      rfl

/- Such a run scans and persists what its report says. -/
theorem Undisturbed.collects
    (hTrace : trace.Undisturbed names)
    (run : Nat) :
    ∃ report,
      (collect trace.host
          (trace.policy.resumed
            (readAutoState (trace.before run).1))
          (trace.runs run).around
          (trace.before run).2).report = Except.ok report ∧
        report.status ≠ "busy" ∧
        trace.scanned run = report.entries.map (·.key) ∧
        (trace.outcome run).file =
          some (.plain (Except.ok
            (savedState (trace.runs run).clock report))) := by
  rcases hTrace.succeeded run with ⟨final, hFinal, hBusy, _⟩
  have hOutcome := hTrace.outcome_eq run
  have hSaved := hTrace.saved run
  unfold scanned
  rw [hOutcome] at hFinal ⊢
  unfold collectResumed at hFinal ⊢
  dsimp only at hFinal ⊢
  generalize
    collect trace.host
      (trace.policy.resumed (readAutoState (trace.before run).1))
      (trace.runs run).around (trace.before run).2
    = collection at hFinal ⊢
  cases hReport : collection.report with
  | error error =>
    rw [hReport] at hFinal
    cases hFinal
  | ok report =>
    rw [hReport] at hFinal
    dsimp only at hFinal ⊢
    by_cases hStatus : report.status = "busy"
    · rw [if_pos (by simpa using hStatus)] at hFinal
      injection hFinal with hFinal
      subst hFinal
      exact absurd hStatus hBusy
    · rw [if_neg (by simpa using hStatus), hSaved]
      exact ⟨report, rfl, hStatus, rfl, rfl⟩

/- Runs and pages go together. -/
theorem Undisturbed.run_eq
    (hTrace : trace.Undisturbed names)
    (hStart : trace.cursor 0 = "")
    (run : Nat) :
    ((readAutoState (trace.before run).1).schema = 1 ∨
        trace.cursor run = "") ∧
      trace.cursor run =
        cursorAt (names.insertionSort (· ≤ ·))
          trace.policy.limit "" acceptsCursor run ∧
      trace.scanned run =
        pageAt (names.insertionSort (· ≤ ·))
          trace.policy.limit "" acceptsCursor run := by
  have hPage :
      ∀ run,
        ((readAutoState (trace.before run).1).schema = 1 ∨
          trace.cursor run = "") →
        trace.cursor run =
          cursorAt (names.insertionSort (· ≤ ·))
            trace.policy.limit "" acceptsCursor run →
        trace.scanned run =
            pageAt (names.insertionSort (· ≤ ·))
              trace.policy.limit "" acceptsCursor run ∧
          (readAutoState (trace.before (run + 1)).1).schema = 1 ∧
          trace.cursor (run + 1) =
            cursorAt (names.insertionSort (· ≤ ·))
              trace.policy.limit "" acceptsCursor
              (run + 1) := by
    intro run hSchema hCursor
    rcases hTrace.collects run with
      ⟨report, hReport, hBusy, hScanned, hFile⟩
    rcases hTrace.listed run with
      ⟨listing, hListing, hPerm⟩
    rcases
        collect_swept (hTrace.cache run) hListing hReport
          hBusy with
      ⟨_, hKeys, hNext⟩
    have hPending := pendingNames_eq hTrace.start hSchema hPerm
    have hLimit :
        (trace.policy.resumed
            (readAutoState (trace.before run).1)).limit
          = trace.policy.limit := by
      unfold Policy.resumed
      split <;> rfl
    have hBefore :
        (trace.before (run + 1)).1 =
          some (.plain (Except.ok
            (savedState (trace.runs run).clock report))) :=
      hFile
    rw [hPending, hLimit] at hKeys
    unfold nextCursor at hNext
    dsimp only at hNext
    rw [hPending, hLimit] at hNext
    refine ⟨?_, ?_, ?_⟩
    · rw [hScanned, hKeys]
      unfold pageAt page
      rw [← hCursor]
      rfl
    · rw [hBefore]
      rfl
    · have hSaved :
          trace.cursor (run + 1) = report.nextCursor.getD "" := by
        unfold cursor
        rw [hBefore]
        rfl
      rw [hSaved, hNext]
      show _ = next _ _ _ _ _
      unfold next
      rw [← hCursor]
      unfold cursor
      split <;> rfl
  have hAll :
      ∀ run,
        ((readAutoState (trace.before run).1).schema = 1 ∨
          trace.cursor run = "") ∧
        trace.cursor run =
          cursorAt (names.insertionSort (· ≤ ·))
            trace.policy.limit "" acceptsCursor run := by
    intro run
    induction run with
    | zero => exact ⟨Or.inr hStart, hStart⟩
    | succ run ih =>
      rcases hPage run ih.1 ih.2 with
        ⟨_, hSchema, hCursor⟩
      exact ⟨Or.inl hSchema, hCursor⟩
  exact
    ⟨(hAll run).1, (hAll run).2,
      (hPage run (hAll run).1 (hAll run).2).1⟩

theorem Undisturbed.completes_iff_cycle
    (hTrace : trace.Undisturbed names)
    (hStart : trace.cursor 0 = "")
    (runs : Nat) :
    trace.Completes names runs ↔
      Cycle (names.insertionSort (· ≤ ·))
        trace.policy.limit "" acceptsCursor runs := by
  have hCursor := fun run =>
    (hTrace.run_eq hStart run).2.1
  have hScanned :
      (List.range runs).flatMap trace.scanned =
        visited (names.insertionSort (· ≤ ·))
          trace.policy.limit "" acceptsCursor runs := by
    unfold visited
    apply List.flatMap_congr
    exact fun run _ => (hTrace.run_eq hStart run).2.2
  constructor
  · intro hCompletes
    constructor
    · exact hCompletes.positive
    · rw [← hCursor]
      exact hCompletes.ends
    · intro run hPositive hRun
      rw [← hCursor]
      exact hCompletes.inside run hPositive hRun
    · rw [← hScanned]
      exact hCompletes.scans
  · intro hCycle
    constructor
    · exact hCycle.positive
    · rw [hCursor]
      exact hCycle.ends
    · intro run hPositive hRun
      rw [hCursor]
      exact hCycle.inside run hPositive hRun
    · rw [hScanned]
      exact hCycle.visits

theorem Undisturbed.limit_pos
    (hTrace : trace.Undisturbed names) :
    0 < trace.policy.limit := by
  rcases hTrace.collects 0 with ⟨report, hReport, hBusy, _, _⟩
  rcases hTrace.listed 0 with ⟨listing, hListing, _⟩
  rcases
      collect_swept (hTrace.cache 0) hListing hReport hBusy with
    ⟨hLimit, _, _⟩
  have hSame :
      (trace.policy.resumed
          (readAutoState (trace.before 0).1)).limit
        = trace.policy.limit := by
    unfold Policy.resumed
    split <;> rfl
  rw [hSame] at hLimit
  exact Nat.pos_of_ne_zero hLimit

/-
  From an empty cursor, undisturbed runs scan all names and
  come back to an empty cursor exactly when every page ends
  with a name that is accepted and unlike its successor.
-/
theorem completes_iff_separated
    (hTrace : trace.Undisturbed names)
    (hStart : trace.cursor 0 = "") :
    (∃ runs, trace.Completes names runs) ↔
      SeparatedPages trace.policy.limit names := by
  have hNames :
      ∀ name ∈ names.insertionSort (· ≤ ·), "" < name := by
    intro name hMem
    have hName :=
      hTrace.named name ((List.mem_insertionSort _).mp hMem)
    rw [String.lt_iff_toList_lt]
    cases hChars : name.toList with
    | nil =>
        exact absurd (String.toList_eq_nil_iff.mp hChars) hName
    | cons char chars => exact List.nil_lt_cons _ _
  unfold SeparatedPages
  rw [← exists_cycle_iff
    (List.pairwise_insertionSort (· ≤ ·) names) hNames
    hTrace.limit_pos]
  exact
    exists_congr fun runs =>
      hTrace.completes_iff_cycle hStart runs

end AutoTrace

----------
-- A Name with a Backslash
----------

/- Directories whose names are no keys of caches. -/
def strayEntries
    (names : List String)
    (hStray : names.filter validateName = []) :
    Surroundings where
  cache := .present ()
  runLock := .free
  trash := .absent
  trashResults := []
  workspaces :=
    .present ⟨names, by rw [hStray]; exact List.nodup_nil⟩
  evidence := fun _ _ =>
    { access := .absent
      leases := .absent
      snapshot := Except.ok []
      useFile := none
      identity := fun _ => Except.error "identity-unavailable"
      prove := fun _ _ => Except.ok .unavailable
      databases := Except.ok () }
  clock := fun _ => ⟨0, 0, 0, 0, 0, 0⟩
  io := fun _ => { moved := Except.ok [] }

def strayTrace
    (limit : Nat)
    (names : List String)
    (hStray : names.filter validateName = []) :
    AutoTrace where
  host := ⟨fun identity => identity, some⟩
  policy := { apply := true, limit := limit }
  intervalMs := 0
  runs := fun _ =>
    { around := strayEntries names hStray
      autoLock := .free
      clock := ⟨0, 0, 0⟩
      writeState := none
      writeReport := none }
  file := none
  state := .present StateFiles.none

section Stray

variable {limit : Nat} {names : List String}
  {hStray : names.filter validateName = []}

theorem inspectOne_stray
    (host : Host)
    (policy : Policy)
    (gathered : Inspection)
    {name : String}
    (hName : validateName name = false) :
    (inspectOne host policy (strayEntries names hStray)
        gathered name).state = gathered.state ∧
      (inspectOne host policy (strayEntries names hStray)
        gathered name).candidates = gathered.candidates := by
  unfold inspectOne
  cases hInspect :
      inspectEntry host policy gathered.state
        ((strayEntries names hStray).evidence · name)
        name with
  | ok found =>
    have hNamed := (inspectEntry_seen host hInspect).1.named
    rw [hName] at hNamed
    cases hNamed
  | error reason => exact ⟨rfl, rfl⟩

theorem inspectAll_stray
    (host : Host)
    (policy : Policy)
    {listed : List String}
    (hListed : ∀ name ∈ listed, validateName name = false)
    (gathered : Inspection) :
    (listed.foldl
        (inspectOne host policy (strayEntries names hStray))
        gathered).state = gathered.state ∧
      (listed.foldl
        (inspectOne host policy (strayEntries names hStray))
        gathered).candidates = gathered.candidates := by
  induction listed generalizing gathered with
  | nil => exact ⟨rfl, rfl⟩
  | cons name listed ih =>
    rw [List.forall_mem_cons] at hListed
    have hOne :=
      @inspectOne_stray names hStray host policy gathered
        name hListed.1
    rw [List.foldl_cons, (ih hListed.2 _).1, (ih hListed.2 _).2]
    exact hOne

/- A collection of strays succeeds and changes nothing. -/
theorem collect_stray
    (host : Host)
    {policy : Policy}
    (hLimit : policy.limit ≠ 0)
    (hApply : policy.apply = true) :
    ∃ report,
      (collect host policy (strayEntries names hStray)
          (.present StateFiles.none)).report
        = Except.ok report ∧
      report.status ∈ ["partial", "complete"] ∧
      (collect host policy (strayEntries names hStray)
          (.present StateFiles.none)).state
        = .present StateFiles.none := by
  have hStrays :
      ∀ name ∈ (pendingNames policy names).take policy.limit,
        validateName name = false := by
    intro name hMem
    have hNames : name ∈ names :=
      (List.mem_insertionSort _).mp
        (List.mem_filter.mp (List.mem_of_mem_take hMem)).1
    by_contra hValid
    rw [Bool.not_eq_false] at hValid
    have hBoth := List.mem_filter.mpr ⟨hNames, hValid⟩
    rw [hStray] at hBoth
    exact absurd hBoth List.not_mem_nil
  rcases
      @inspectAll_stray names hStray host policy _ hStrays
        { state := .present StateFiles.none } with
    ⟨hState, hCandidates⟩
  have hDecisions :
      ∀ complete observed state,
        decideAll host policy (strayEntries names hStray)
          complete
          (sortCandidates
            (inspectAll host policy
              (strayEntries names hStray)
              (.present StateFiles.none) names).candidates)
          observed state = [] := by
    intro complete observed state
    unfold inspectAll
    rw [hCandidates]
    rfl
  have hCollect :
      collect host policy (strayEntries names hStray)
          (.present StateFiles.none)
        = sweep host policy (strayEntries names hStray) []
          names (.present StateFiles.none) := by
    unfold collect
    rw [if_neg hLimit]
    dsimp only [strayEntries]
    rw [if_pos hApply]
    rfl
  rw [hCollect]
  unfold sweep
  simp only [hDecisions]
  refine ⟨_, rfl, ?_, hState⟩
  dsimp only
  split <;> simp

theorem strayTrace_outcome
    (run : Nat) :
    (strayTrace limit names hStray).outcome run =
      collectResumed (strayTrace limit names hStray).host
        (strayTrace limit names hStray).policy
        ((strayTrace limit names hStray).runs run)
        ((strayTrace limit names hStray).before run).1
        ((strayTrace limit names hStray).before run).2 := by
  unfold AutoTrace.outcome
  generalize (strayTrace limit names hStray).before run = last
  have hWarm :
      coolingDown
          ((strayTrace limit names hStray).runs run).clock
          (strayTrace limit names hStray).intervalMs
          (readAutoState last.1)
        = false := by
    unfold coolingDown
    simp [strayTrace]
  show (if coolingDown
        ((strayTrace limit names hStray).runs run).clock
        (strayTrace limit names hStray).intervalMs
        (readAutoState last.1) = true
      then _ else _) = _
  rw [hWarm]
  rfl

theorem strayTrace_runs
    (hLimit : 0 < limit)
    (run : Nat) :
    ((strayTrace limit names hStray).before run).2 =
        .present StateFiles.none ∧
      ∃ report,
        ((strayTrace limit names hStray).outcome run).report
          = Except.ok report ∧
        report.status ≠ "busy" ∧
        report.status ≠ "cooldown" := by
  have hRun :
      ∀ run,
        ((strayTrace limit names hStray).before run).2 =
            .present StateFiles.none →
        ((strayTrace limit names hStray).outcome run).state =
            .present StateFiles.none ∧
          ∃ report,
            ((strayTrace limit names hStray).outcome
              run).report = Except.ok report ∧
            report.status ≠ "busy" ∧
            report.status ≠ "cooldown" := by
    intro run hState
    have hPolicy :
        ∀ saved,
          (Policy.resumed { apply := true, limit := limit }
              saved).limit = limit ∧
            (Policy.resumed { apply := true, limit := limit }
              saved).apply = true := by
      intro saved
      unfold Policy.resumed
      split <;> exact ⟨rfl, rfl⟩
    rw [strayTrace_outcome, hState]
    unfold collectResumed
    generalize
      readAutoState ((strayTrace limit names hStray).before run).1
      = saved
    rcases hPolicy saved with ⟨hSame, hApply⟩
    have hPositive :
        (Policy.resumed { apply := true, limit := limit }
          saved).limit ≠ 0 := by
      rw [hSame]
      exact Nat.ne_of_gt hLimit
    rcases
        @collect_stray names hStray ⟨fun name => name, some⟩
          _ hPositive hApply with
      ⟨report, hReport, hStatus, hAfter⟩
    have hStrays :
        collect (strayTrace limit names hStray).host
            ((strayTrace limit names hStray).policy.resumed saved)
            ((strayTrace limit names hStray).runs run).around
            (.present StateFiles.none)
          = collect ⟨fun name => name, some⟩
            (Policy.resumed { apply := true, limit := limit }
              saved)
            (strayEntries names hStray)
            (.present StateFiles.none) := rfl
    have hBusy : (report.status == "busy") = false := by
      simp only [List.mem_cons, List.not_mem_nil,
        or_false] at hStatus
      rcases hStatus with hOne | hOne <;> rw [hOne] <;> rfl
    dsimp only
    rw [hStrays, hReport, hAfter]
    dsimp only
    rw [hBusy]
    refine ⟨rfl, _, rfl, ?_, ?_⟩
    · simpa using hBusy
    · dsimp only
      simp only [List.mem_cons, List.not_mem_nil,
        or_false] at hStatus
      rcases hStatus with hOne | hOne <;> rw [hOne] <;> decide
  have hState :
      ((strayTrace limit names hStray).before run).2 =
        .present StateFiles.none := by
    induction run with
    | zero => rfl
    | succ run ih => exact (hRun run ih).1
  exact ⟨hState, (hRun run hState).2⟩

/- Nothing disturbs the strays. -/
theorem strayTrace_undisturbed
    (hLimit : 0 < limit)
    (hNamed : ∀ name ∈ names, name ≠ "") :
    (strayTrace limit names hStray).Undisturbed names where
  named := hNamed
  start := rfl
  cache _ := rfl
  listed _ := ⟨_, rfl, List.Perm.refl _⟩
  succeeded run := (strayTrace_runs hLimit run).2
  saved _ := rfl

end Stray

/- Two directories, one to a page. -/
theorem completes_plainNames :
    ∃ runs,
      (strayTrace 1 ["a", "b"] (by decide)).Completes
        ["a", "b"] runs := by
  refine
    (AutoTrace.completes_iff_separated
      (strayTrace_undisturbed (by decide) (by decide))
      rfl).mpr ?_
  intro pages hPages left right hLeft hRight
  have hShort := (List.getElem?_eq_some_iff.mp hRight).1
  have hOne : pages = 1 := by
    have hLength :
        (["a", "b"].insertionSort (· ≤ ·)).length = 2 := by
      simp
    rw [hLength] at hShort
    change pages * 1 < 2 at hShort
    omega
  subst hOne
  have hSorted :
      ["a", "b"].insertionSort (· ≤ ·) = ["a", "b"] := by
    decide +kernel
  rw [hSorted] at hLeft hRight
  cases hLeft
  cases hRight
  decide +kernel

/-
  The cursor behind a name with a backslash is refused, so
  every run scans that name again.
-/
theorem completes_fails_backslash :
    (strayTrace 1 ["a\\", "b"] (by decide)).Undisturbed
        ["a\\", "b"] ∧
      (strayTrace 1 ["a\\", "b"] (by decide)).cursor 0 = "" ∧
      ¬ ∃ runs,
        (strayTrace 1 ["a\\", "b"] (by decide)).Completes
          ["a\\", "b"] runs := by
  have hTrace :
      (strayTrace 1 ["a\\", "b"] (by decide)).Undisturbed
        ["a\\", "b"] :=
    strayTrace_undisturbed (by decide) (by decide)
  refine ⟨hTrace, rfl, ?_⟩
  rintro ⟨runs, hCompletes⟩
  have hCycle :=
    (hTrace.completes_iff_cycle rfl runs).mp hCompletes
  have hSorted :
      ["a\\", "b"].insertionSort (· ≤ ·) = ["a\\", "b"] := by
    decide +kernel
  rw [hSorted] at hCycle
  have hSeparated :=
    separated_of_cycle (by decide) hCycle 1 (by decide)
      "a\\" "b" rfl rfl
  exact absurd hSeparated.1 (by decide +kernel)

end CacheGc

end ArktsServer
