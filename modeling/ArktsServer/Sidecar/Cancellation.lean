import ArktsServer.Lib.Transition
import ArktsServer.Sidecar.WorkerSafety

/-
  The catalog worker together with any number of callers of
  `CatalogControl::cancel`.  Every atomic operation of every
  party is a move of its own, so another party can slip in
  between any two of them.

  Key definitions include:
    * `CatalogSystem`, `CatalogSystem.Move`
    * `CatalogSystem.step`
    * `CatalogSystem.Invariant`

  Correctness is proven by:
    * `cancel_safe`
    * `CatalogSystem.step_invariant`
    * `cancelled_or_published`
-/

----------
-- The System
----------

namespace ArktsServer

namespace Sidecar

open SharedCell

/-
  `committed` is the generation of the published catalog.
  A caller stays in the list when its call has returned.
-/
structure CatalogSystem where
  control : ControlState
  history : List WorkerEffect
  worker : Action Unit
  callers : List (Action Bool)
  committed : Nat

namespace CatalogSystem

/- The worker has been spawned and nobody cancels yet. -/
def start
    (generation committed : Nat)
    (script : WorkerScript) : CatalogSystem where
  control := .running
  history := []
  worker := catalogWorker generation script
  callers := []
  committed

inductive Move where
| worker
| panic
| call
| caller (index : Nat)
deriving DecidableEq

/- The published catalog after an effect of the worker. -/
def commitEffect
    (generation : Nat)
    (committed : Nat)
    (effect : WorkerEffect) : Nat :=
  match effect with
  | .send _ => committed
  | .publish => generation

def stepWorker
    (generation : Nat)
    (system : CatalogSystem) : CatalogSystem :=
  match system.worker.advance system.control with
  | none => system
  | some (control, effects, worker) =>
      { system with
        control
        history := system.history ++ effects
        worker
        committed :=
          effects.foldl (commitEffect generation)
            system.committed }

/- A thread that has not ended can unwind anywhere. -/
def stepPanic
    (generation : Nat)
    (system : CatalogSystem) : CatalogSystem :=
  match system.worker.advance system.control with
  | none => system
  | some _ =>
      { system with worker := panicReport generation }

def stepCaller
    (system : CatalogSystem)
    (index : Nat) : CatalogSystem :=
  match system.callers[index]? with
  | none => system
  | some caller =>
      match caller.advance system.control with
      | none => system
      | some (control, _, rest) =>
          { system with
            control
            callers := system.callers.set index rest }

def step
    (generation : Nat)
    (system : CatalogSystem) : Move → CatalogSystem
| .worker => system.stepWorker generation
| .panic => system.stepPanic generation
| .call =>
    { system with callers := system.callers ++ [cancel] }
| .caller index => system.stepCaller index

/- The results of the calls that have returned. -/
def results (system : CatalogSystem) : List Bool :=
  system.callers.filterMap fun caller =>
    match caller with
    | .done result => some result
    | _ => none

def Published (system : CatalogSystem) : Prop :=
  WorkerEffect.publish ∈ system.history

/- The system after the moves of a run. -/
def after
    (generation committed : Nat)
    (script : WorkerScript)
    (moves : List Move) : CatalogSystem :=
  Transition.run (step generation)
    (start generation committed script) moves

end CatalogSystem

----------
-- Callers
----------

/- What a caller relies on: nobody revives a worker. -/
def callerRely (before after : ControlState) : Prop :=
  before = .cancelled → after = .cancelled

/- What a caller does to the state byte. -/
def callerGuarantee (before after : ControlState) : Prop :=
  after = .cancelled ∧
    (before = .running ∨ before = .activating ∨
      before = .testActivationWaiting)

theorem callerRely_refl (control : ControlState) :
    callerRely control control :=
  id

theorem callerRely_trans
    (first second third : ControlState)
    (hLeft : callerRely first second)
    (hRight : callerRely second third) :
    callerRely first third :=
  fun hFirst => hRight (hLeft hFirst)

theorem callerGuarantee_rely
    {before after : ControlState}
    (hGuarantee : callerGuarantee before after) :
    controlRely before after :=
  Or.inr hGuarantee

theorem callerRely_of_callerGuarantee
    {before after : ControlState}
    (hGuarantee : callerGuarantee before after) :
    callerRely before after :=
  fun _ => hGuarantee.1

theorem callerRely_of_controlGuarantee
    {before after : ControlState}
    (hGuarantee : controlGuarantee before after) :
    callerRely before after := by
  intro hCancelled
  subst hCancelled
  rcases hGuarantee with ⟨hBefore, _⟩ | ⟨hBefore, _⟩ |
    ⟨hBefore, _⟩
  · cases hBefore
  · cases hBefore
  · cases hBefore

/- A call that returns true leaves the worker cancelled. -/
abbrev CallerSafe
    (caller : Action Bool)
    (control : ControlState) : Prop :=
  Safe callerRely callerGuarantee (fun _ _ => True)
    (fun control _ result =>
      result = true → control = .cancelled)
    caller control []

/- A call has no visible effects. -/
def Silent : Action Bool → Prop
| .done _ => True
| .load next => ∀ control, Silent (next control)
| .exchange _ _ next => ∀ swapped, Silent (next swapped)
| .perform _ _ => False

theorem cancel_silent : Silent cancel := by
  intro fromRunning
  cases fromRunning with
  | true => exact trivial
  | false =>
    intro fromActivating
    cases fromActivating with
    | true => exact trivial
    | false =>
      intro fromWaiting
      exact trivial

theorem cancel_safe (control : ControlState) :
    CallerSafe cancel control := by
  have hReturned
      (result : Bool)
      (later : ControlState)
      (hLater : callerRely .cancelled later) :
      result = true → later = .cancelled :=
    fun _ => hLater rfl
  refine ⟨⟨rfl, Or.inl rfl⟩, ?_⟩
  intro _ _
  refine ⟨trivial, ?_, ?_⟩
  · intro _
    exact hReturned true
  · intro _
    refine ⟨⟨rfl, Or.inr (Or.inl rfl)⟩, ?_⟩
    intro _ _
    refine ⟨trivial, ?_, ?_⟩
    · intro _
      exact hReturned true
    · intro _
      refine ⟨⟨rfl, Or.inr (Or.inr rfl)⟩, ?_⟩
      intro _ _
      refine ⟨trivial, ?_, ?_⟩
      · intro _
        exact hReturned true
      · intro _ _ _ hTrue
        cases hTrue

variable {effects : List WorkerEffect}

/- One operation of a silent call. -/
theorem Silent.advance
    {caller rest : Action Bool}
    {control control' : ControlState}
    (hSilent : Silent caller)
    (hAdvance :
      caller.advance control =
        some (control', effects, rest)) :
    effects = [] ∧ Silent rest := by
  cases caller with
  | done result => cases hAdvance
  | load next =>
    cases hAdvance
    exact ⟨rfl, hSilent control⟩
  | exchange expected desired next =>
    simp only [Program.advance] at hAdvance
    split at hAdvance
    · cases hAdvance
      exact ⟨rfl, hSilent true⟩
    · cases hAdvance
      exact ⟨rfl, hSilent false⟩
  | perform effect next => exact absurd hSilent id

----------
-- The Invariant
----------

namespace CatalogSystem

/- Every party is safe and the catalog is accounted for. -/
structure Invariant
    (generation committed : Nat)
    (system : CatalogSystem) : Prop where
  worker :
    WorkerSafe generation
      (fun control history _ =>
        Ended generation control history)
      system.worker system.control system.history
  callers :
    ∀ caller ∈ system.callers,
      Silent caller ∧ CallerSafe caller system.control
  catalog :
    ¬ system.Published → system.committed = committed

theorem start_invariant
    (generation committed : Nat)
    (script : WorkerScript) :
    Invariant generation committed
      (start generation committed script) where
  worker := catalogWorker_safe generation script
  callers := by
    intro caller hCaller
    cases hCaller
  catalog := fun _ => rfl

/- The published catalog changes by publishing only. -/
theorem foldl_commitEffect
    (generation : Nat)
    (hUnpublished : WorkerEffect.publish ∉ effects)
    (committed : Nat) :
    effects.foldl (commitEffect generation) committed =
      committed := by
  induction effects generalizing committed with
  | nil => rfl
  | cons effect effects ih =>
    have hRest : WorkerEffect.publish ∉ effects :=
      fun hMem =>
        hUnpublished (List.mem_cons_of_mem _ hMem)
    cases effect with
    | send update => exact ih hRest committed
    | publish => exact absurd List.mem_cons_self hUnpublished

variable {system : CatalogSystem}
variable {generation committed : Nat}

theorem stepWorker_invariant
    (hInv : Invariant generation committed system) :
    Invariant generation committed
      (system.stepWorker generation) := by
  simp only [stepWorker]
  split
  · exact hInv
  · rename_i control effects worker hAdvance
    rcases hInv.worker.advance controlRely_refl hAdvance with
      ⟨hWorker, hMoved⟩
    have hRely : callerRely system.control control := by
      rcases hMoved with rfl | hGuarantee
      · exact callerRely_refl _
      · exact callerRely_of_controlGuarantee hGuarantee
    refine ⟨hWorker, ?_, ?_⟩
    · intro caller hCaller
      rcases hInv.callers caller hCaller with
        ⟨hSilent, hSafe⟩
      exact ⟨hSilent, hSafe.interfere callerRely_trans hRely⟩
    · intro hUnpublished
      have hOld : ¬ system.Published :=
        fun hMem =>
          hUnpublished (List.mem_append_left _ hMem)
      have hNew : WorkerEffect.publish ∉ effects :=
        fun hMem =>
          hUnpublished (List.mem_append_right _ hMem)
      exact
        (foldl_commitEffect generation hNew _).trans
          (hInv.catalog hOld)

theorem stepPanic_invariant
    (hInv : Invariant generation committed system) :
    Invariant generation committed
      (system.stepPanic generation) := by
  simp only [stepPanic]
  split
  · exact hInv
  · rename_i next hAdvance
    have hActive :
        Active generation system.control system.history := by
      apply hInv.worker.good controlRely_refl
      rw [hAdvance]
      rfl
    exact ⟨panicReport_safe hActive, hInv.callers, hInv.catalog⟩

theorem stepCaller_invariant
    (index : Nat)
    (hInv : Invariant generation committed system) :
    Invariant generation committed
      (system.stepCaller index) := by
  simp only [stepCaller]
  split
  · exact hInv
  · rename_i caller hCaller
    split
    · exact hInv
    · rename_i control effects rest hAdvance
      rcases hInv.callers caller
          (List.mem_of_getElem? hCaller) with
        ⟨hSilent, hSafe⟩
      rcases hSilent.advance hAdvance with ⟨rfl, hRest⟩
      rcases hSafe.advance callerRely_refl hAdvance with
        ⟨hRestSafe, hMoved⟩
      have hWorkerRely :
          controlRely system.control control := by
        rcases hMoved with rfl | hGuarantee
        · exact controlRely_refl _
        · exact callerGuarantee_rely hGuarantee
      have hCallerRely :
          callerRely system.control control := by
        rcases hMoved with rfl | hGuarantee
        · exact callerRely_refl _
        · exact callerRely_of_callerGuarantee hGuarantee
      refine
        ⟨hInv.worker.interfere controlRely_trans hWorkerRely,
          ?_, hInv.catalog⟩
      intro other hOther
      rcases List.mem_or_eq_of_mem_set hOther with
        hOld | rfl
      · rcases hInv.callers other hOld with
          ⟨hOtherSilent, hOtherSafe⟩
        exact
          ⟨hOtherSilent,
            hOtherSafe.interfere callerRely_trans hCallerRely⟩
      · exact ⟨hRest, hRestSafe⟩

/- Every move of every party keeps the invariant. -/
theorem step_invariant
    (system : CatalogSystem)
    (move : Move)
    (hInv : Invariant generation committed system) :
    Invariant generation committed
      (system.step generation move) := by
  cases move with
  | worker => exact stepWorker_invariant hInv
  | panic => exact stepPanic_invariant hInv
  | call =>
    refine ⟨hInv.worker, ?_, hInv.catalog⟩
    intro caller hCaller
    rcases List.mem_append.mp hCaller with hOld | hNew
    · exact hInv.callers caller hOld
    · rw [List.mem_singleton.mp hNew]
      exact ⟨cancel_silent, cancel_safe system.control⟩
  | caller index => exact stepCaller_invariant index hInv

theorem after_invariant
    (generation committed : Nat)
    (script : WorkerScript)
    (moves : List Move) :
    Invariant generation committed
      (after generation committed script moves) :=
  Transition.run_invariant step_invariant
    (start_invariant generation committed script) moves

/- The worker has ended or it has not. -/
theorem Invariant.history
    (hInv : Invariant generation committed system) :
    Active generation system.control system.history ∨
      Ended generation system.control system.history := by
  cases hAdvance : system.worker.advance system.control with
  | none =>
    rcases hInv.worker.post controlRely_refl hAdvance with
      ⟨_, hEnded⟩
    exact Or.inr hEnded
  | some next =>
    apply Or.inl
    apply hInv.worker.good controlRely_refl
    rw [hAdvance]
    rfl

theorem Invariant.cancelled
    (hInv : Invariant generation committed system)
    (hResult : true ∈ system.results) :
    system.control = .cancelled := by
  rcases List.mem_filterMap.mp hResult with
    ⟨caller, hCaller, hDone⟩
  have hSafe := (hInv.callers caller hCaller).2
  split at hDone
  · rename_i result
    have hTrue : result = true := Option.some.inj hDone
    exact hSafe system.control (callerRely_refl _) hTrue
  · cases hDone

/- The updates of a catalog system are in order. -/
theorem Invariant.sentInOrder
    (hInv : Invariant generation committed system) :
    ∃ reports ending,
      sentUpdates system.history = reports ++ ending ∧
        SentInOrder generation system.control reports
          ending := by
  rcases hInv.history with hActive | hEnded
  · exact ⟨_, [], (List.append_nil _).symm, hActive.sentInOrder⟩
  · rcases hEnded.sentInOrder with
      ⟨reports, update, hSent, hOrder, _⟩
    exact ⟨reports, [update], hSent, hOrder⟩

/- A step of the worker extends the history. -/
theorem stepWorker_history
    (hInv :
      Invariant generation committed system) :
    ∃ effects,
      (system.stepWorker generation).history =
          system.history ++ effects ∧
        ((system.stepWorker generation).control =
            .cancelled →
          system.control = .cancelled) := by
  simp only [stepWorker]
  split
  · exact ⟨[], (List.append_nil _).symm, id⟩
  · rename_i control effects worker hAdvance
    refine ⟨effects, rfl, ?_⟩
    intro hCancelled
    rcases (hInv.worker.advance controlRely_refl
        hAdvance).2 with hSame | hGuarantee
    · exact hSame.symm.trans hCancelled
    · have hControl : control = .cancelled := hCancelled
      subst hControl
      rcases hGuarantee with
        ⟨_, hAfter | hAfter⟩ | ⟨_, hAfter⟩ | ⟨_, hAfter⟩
      · cases hAfter
      · cases hAfter
      · cases hAfter
      · cases hAfter

/- The other parties leave the history as it is. -/
theorem stepCaller_history
    (system : CatalogSystem)
    (index : Nat) :
    (system.stepCaller index).history = system.history := by
  simp only [stepCaller]
  split
  · rfl
  · split
    · rfl
    · rfl

theorem stepPanic_history
    (generation : Nat)
    (system : CatalogSystem) :
    (system.stepPanic generation).history =
        system.history ∧
      (system.stepPanic generation).control =
        system.control := by
  simp only [stepPanic]
  split
  · exact ⟨rfl, rfl⟩
  · exact ⟨rfl, rfl⟩

----------
-- Returning Calls
----------

/- The call returns after at most so many operations. -/
inductive Within : Nat → Action Bool → Prop
| done {fuel : Nat} (result : Bool) :
    Within fuel (.done result)
| exchange
    {fuel : Nat}
    {expected desired : ControlState}
    {next : Bool → Action Bool} :
    (∀ swapped, Within fuel (next swapped)) →
      Within (fuel + 1) (.exchange expected desired next)

theorem cancel_within : Within 3 cancel := by
  refine Within.exchange fun fromRunning => ?_
  cases fromRunning with
  | true => exact Within.done true
  | false =>
    refine Within.exchange fun fromActivating => ?_
    cases fromActivating with
    | true => exact Within.done true
    | false => exact Within.exchange Within.done

variable {caller : Action Bool}

/- A scheduled call comes closer to its end. -/
theorem stepCaller_within
    {index fuel : Nat}
    (hCaller : system.callers[index]? = some caller)
    (hWithin : Within (fuel + 1) caller) :
    ∃ rest,
      (system.stepCaller index).callers[index]? = some rest ∧
        Within fuel rest := by
  have hBound : index < system.callers.length :=
    (List.getElem?_eq_some_iff.mp hCaller).1
  simp only [stepCaller, hCaller]
  cases hWithin with
  | done result =>
    exact ⟨_, hCaller, Within.done result⟩
  | exchange hNext =>
    simp only [Program.advance]
    split
    · rename_i hSplit
      split at hSplit
      · cases hSplit
      · cases hSplit
    · rename_i hSplit
      split at hSplit
      · cases hSplit
        exact ⟨_, List.getElem?_set_self hBound, hNext true⟩
      · cases hSplit
        exact ⟨_, List.getElem?_set_self hBound, hNext false⟩

/- Other moves leave a call where it is. -/
theorem step_other_caller
    (generation : Nat)
    {index : Nat}
    (hCaller : system.callers[index]? = some caller)
    {move : Move}
    (hMove : move ≠ .caller index) :
    (system.step generation move).callers[index]? =
      some caller := by
  cases move with
  | worker =>
    simp only [step, stepWorker]
    split
    · exact hCaller
    · exact hCaller
  | panic =>
    simp only [step, stepPanic]
    split
    · exact hCaller
    · exact hCaller
  | call =>
    have hBound : index < system.callers.length :=
      (List.getElem?_eq_some_iff.mp hCaller).1
    simp only [step]
    rw [List.getElem?_append_left hBound]
    exact hCaller
  | caller other =>
    have hNe : other ≠ index := by
      intro hEq
      exact hMove (by rw [hEq])
    simp only [step, stepCaller]
    split
    · exact hCaller
    · split
      · exact hCaller
      · rw [List.getElem?_set_ne hNe]
        exact hCaller

/- A call that is scheduled often enough returns. -/
theorem run_returns
    (generation : Nat)
    {index fuel : Nat}
    (hWithin : Within fuel caller)
    (moves : List Move)
    (hCaller : system.callers[index]? = some caller)
    (hCount : fuel ≤ moves.count (.caller index)) :
    ∃ result,
      (Transition.run (step generation) system
          moves).callers[index]? =
        some (.done result) := by
  induction moves generalizing system fuel caller with
  | nil =>
    simp only [List.count_nil, Nat.le_zero] at hCount
    subst hCount
    cases hWithin with
    | done result => exact ⟨result, hCaller⟩
  | cons move moves ih =>
    rw [Transition.run_cons]
    by_cases hMove : move = .caller index
    · subst hMove
      rw [List.count_cons_self] at hCount
      cases fuel with
      | zero =>
        cases hWithin with
        | done result =>
          have hOne : Within 1 (.done result) :=
            Within.done result
          rcases stepCaller_within hCaller hOne with
            ⟨rest, hRest, hLess⟩
          exact ih hLess hRest (Nat.zero_le _)
      | succ fuel =>
        rcases stepCaller_within hCaller hWithin with
          ⟨rest, hRest, hLess⟩
        exact ih hLess hRest (by omega)
    · have hOther := step_other_caller generation hCaller hMove
      rw [List.count_cons_of_ne hMove] at hCount
      exact ih hWithin hOther hCount

end CatalogSystem

----------
-- Mutual Exclusion
----------

variable {history : List WorkerEffect}
variable {control : ControlState}

variable {generation : Nat}

theorem Active.publishing
    (hActive : Active generation control history)
    (hPublished : WorkerEffect.publish ∈ history) :
    control = .publishing := by
  cases hActive with
  | live hLive => exact absurd hPublished hLive.unpublished
  | published hLive hPublishing => exact hPublishing

theorem Active.not_complete
    (hActive : Active generation control history) :
    ∀ update ∈ sentUpdates history,
      isTerminal update = false := by
  cases hActive with
  | live hLive =>
    intro update hUpdate
    exact (hLive.running update hUpdate).1
  | published hLive hPublishing =>
    intro update hUpdate
    rw [sentUpdates_append_publish] at hUpdate
    exact (hLive.running update hUpdate).1

/- A worker that has published is in the publishing state. -/
theorem Ended.publishing
    (hEnded : Ended generation control history)
    (hPublished : WorkerEffect.publish ∈ history) :
    control = .publishing := by
  cases hEnded with
  | cancelled hLive hCancelled =>
    simp only [List.mem_append, List.mem_singleton,
      reduceCtorEq, or_false] at hPublished
    exact absurd hPublished hLive.unpublished
  | failed hActive hSound =>
    simp only [List.mem_append, List.mem_singleton,
      reduceCtorEq, or_false] at hPublished
    exact hActive.publishing hPublished
  | complete hLive hPublishing hReport => exact hPublishing

/- So is a worker that reports its completion. -/
theorem Ended.publishing_of_complete
    (hEnded : Ended generation control history)
    {report : RefreshReport}
    {progress : CatalogProgress}
    (hComplete :
      .complete generation report progress ∈
        sentUpdates history) :
    control = .publishing := by
  cases hEnded with
  | cancelled hLive hCancelled =>
    simp only [sentUpdates_append_send, List.mem_append,
      List.mem_singleton, reduceCtorEq, or_false]
      at hComplete
    cases (hLive.running _ hComplete).1
  | failed hActive hSound =>
    simp only [sentUpdates_append_send, List.mem_append,
      List.mem_singleton, reduceCtorEq, or_false]
      at hComplete
    cases hActive.not_complete _ hComplete
  | complete hLive hPublishing hReport => exact hPublishing

namespace CatalogSystem

variable {generation committed : Nat}
variable {system : CatalogSystem}

theorem Invariant.publishing
    (hInv : Invariant generation committed system)
    (hPublished : system.Published) :
    system.control = .publishing := by
  rcases hInv.history with hActive | hEnded
  · exact hActive.publishing hPublished
  · exact hEnded.publishing hPublished

theorem Invariant.exclusive
    (hInv : Invariant generation committed system)
    (hResult : true ∈ system.results) :
    ¬ system.Published := by
  intro hPublished
  have hCancelled := hInv.cancelled hResult
  rw [hInv.publishing hPublished] at hCancelled
  cases hCancelled

theorem Invariant.not_complete
    (hInv : Invariant generation committed system)
    (hResult : true ∈ system.results)
    (report : RefreshReport)
    (progress : CatalogProgress) :
    .complete generation report progress ∉
      sentUpdates system.history := by
  intro hComplete
  have hCancelled := hInv.cancelled hResult
  rcases hInv.history with hActive | hEnded
  · cases hActive.not_complete _ hComplete
  · rw [hEnded.publishing_of_complete hComplete] at hCancelled
    cases hCancelled

variable {script : WorkerScript}
variable {moves : List Move}

/- A publication stays in the history. -/
theorem published_append
    (hPublished :
      (after generation committed script moves).Published)
    (later : List Move) :
    (after generation committed script
      (moves ++ later)).Published := by
  simp only [after, Transition.run_append]
  apply Transition.run_invariant _ hPublished
  intro system move hMem
  cases move with
  | worker =>
    simp only [step, stepWorker]
    split
    · exact hMem
    · exact List.mem_append_left _ hMem
  | panic =>
    simp only [step, stepPanic]
    split
    · exact hMem
    · exact hMem
  | call => exact hMem
  | caller index =>
    simp only [step, stepCaller]
    split
    · exact hMem
    · split
      · exact hMem
      · exact hMem

/- The result of a call that has returned. -/
theorem mem_results
    {index : Nat}
    {result : Bool}
    (hCaller :
      system.callers[index]? = some (.done result)) :
    result ∈ system.results := by
  apply List.mem_filterMap.mpr
  exact ⟨_, List.mem_of_getElem? hCaller, rfl⟩

/- A call behind a publication returns false. -/
theorem call_after_published
    (hPublished :
      (after generation committed script moves).Published)
    (later : List Move)
    (index : Nat)
    (hIndex :
      index =
        (after generation committed script
          moves).callers.length)
    (hCount : 3 ≤ later.count (.caller index)) :
    (after generation committed script
        (moves ++ .call :: later)).callers[index]? =
      some (.done false) := by
  have hInv :=
    after_invariant generation committed script
      (moves ++ .call :: later)
  have hStill := published_append hPublished (.call :: later)
  have hReturned :
      ∃ result,
        (after generation committed script
            (moves ++ .call :: later)).callers[index]? =
          some (.done result) := by
    simp only [after, Transition.run_append, Transition.run_cons]
    apply run_returns generation cancel_within later _ hCount
    subst hIndex
    simp [step, after]
  rcases hReturned with ⟨result, hResult⟩
  cases result with
  | false => exact hResult
  | true =>
    have hNot := hInv.exclusive (mem_results hResult)
    exact absurd hStill hNot

end CatalogSystem

/-
  Cancellation and publication exclude each other, in every
  run: a successful cancel leaves the published catalog and
  forbids a completion, and behind a publication every call
  returns false.
-/
theorem cancelled_or_published
    (generation committed : Nat)
    (script : WorkerScript)
    (moves : List CatalogSystem.Move) :
    let system :=
      CatalogSystem.after generation committed script moves
    ¬ (true ∈ system.results ∧ system.Published) ∧
      (true ∈ system.results →
        system.committed = committed ∧
          ∀ report progress,
            .complete generation report progress ∉
              sentUpdates system.history) ∧
      (system.Published →
        ∀ later index,
          index = system.callers.length →
          3 ≤ later.count (.caller index) →
          (CatalogSystem.after generation committed script
              (moves ++ .call :: later)).callers[index]? =
            some (.done false)) := by
  intro system
  have hInv :=
    CatalogSystem.after_invariant generation committed script
      moves
  refine ⟨?_, ?_, ?_⟩
  · rintro ⟨hResult, hPublished⟩
    exact hInv.exclusive hResult hPublished
  · intro hResult
    exact
      ⟨hInv.catalog (hInv.exclusive hResult),
        hInv.not_complete hResult⟩
  · intro hPublished later index hIndex hCount
    exact
      CatalogSystem.call_after_published hPublished later
        index hIndex hCount

/- The view of an observer whom nothing stops. -/
def calmObservation : Observation where
  now := 0
  recent := false
  writerReleased := true
  sourcesCurrent := [true]

/- A reuse of an unchanged catalog. -/
def reuseScript : WorkerScript where
  scan := [.poll, .count 1 0 0 0, .report]
  spawnFailure := none
  session :=
    { openFailure := none
      route :=
        .reuse 1 (Except.ok none) calmObservation
          (Except.ok [])
      checking := calmObservation
      lockFailure := none
      publishing := calmObservation
      commitFailure := none }

/- Left alone, the worker publishes. -/
example :
    (CatalogSystem.after 2 1 reuseScript
      (List.replicate 40 .worker)).committed = 2 := by
  decide

end Sidecar

end ArktsServer
