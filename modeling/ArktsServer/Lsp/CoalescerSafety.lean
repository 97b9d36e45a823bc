import ArktsServer.Lsp.CoalescerInvariant

/-
  Coalesced requests share one fate: an operation is started
  once and cancelled by the last waiter that leaves it before
  it settles, every waiter is settled once, by the outcome or
  by its own abort, and nobody joins an operation that was
  cancelled or that nobody waits for.

  Key definitions include:
    * `Leaves`, `LeavesLast`, `Fate`
    * `Moves`, `Coalesced`

  Correctness is proven by:
    * `step_invariant`, `step_moves`
    * `run_jobs`
    * `coalescer_safe`
-/

namespace ArktsServer

namespace Coalescing

open Coalescer

section Safety

variable {Key Reason Outcome : Type} [DecidableEq Key]

----------
-- Jobs
----------

variable {state : Coalescer Key Reason Outcome}
variable {jobs : List (Job Key)}

variable {operation : OperationId}

/- A job that counts a start or notes that it was told. -/
theorem Invariant.job_marked
    {job : Job Key}
    {starts : Nat}
    {settled : Bool}
    (hState : Invariant none state)
    (hJobs : state.jobs = job :: jobs)
    (hJob : ∀ id, job ≠ .react id)
    (hCreated : operation < state.nextOperation)
    (hStarts :
      ∀ other,
        (if other = operation then starts
          else (state.shared other).starts)
            + jobs.countP (Job.isStart other) =
          if other < state.nextOperation then 1 else 0)
    (hAfter :
      settledAfter
          (Function.update (settledOf state) operation settled)
          jobs =
        settledAfter (settledOf state) state.jobs)
    (hOrdered :
      Ordered (operationOf state)
        (Function.update (settledOf state) operation settled)
        jobs) :
    Invariant none
      { state with
        shared :=
          Function.update state.shared operation
            { state.shared operation with starts, settled }
        jobs := jobs } := by
  have hOutcome :
      ∀ other,
        (Function.update state.shared operation
            { state.shared operation with starts, settled }
            other).outcome =
          (state.shared other).outcome :=
    shared_update SharedOperation.outcome (by rfl)
  have hReactions :
      ∀ other,
        (Function.update state.shared operation
            { state.shared operation with starts, settled }
            other).reactions =
          (state.shared other).reactions :=
    shared_update SharedOperation.reactions (by rfl)
  have hReact : ∀ id,
      Job.react id ∈ jobs ↔ Job.react id ∈ state.jobs := by
    intro id
    rw [hJobs, List.mem_cons, or_iff_right (hJob id).symm]
  have hSettled :
      (fun other =>
          (Function.update state.shared operation
            { state.shared operation with starts, settled }
            other).settled) =
        Function.update (settledOf state) operation settled := by
    funext other
    simp only [Function.update_apply, settledOf]
    split
    · rfl
    · rfl
  refine
    hState.reshared ?_
      (shared_update SharedOperation.waiters (by rfl))
      (shared_update SharedOperation.aborted (by rfl))
      (fun other _ hGiven => (hOutcome other).trans hGiven)
      ?_ ?_ ?_
  · intro other hNew
    exact
      Function.update_of_ne
        (Nat.ne_of_gt (Nat.lt_of_lt_of_le hCreated hNew)) _ _
  · intro other
    refine Eq.trans ?_
      ((hStarts other).trans (hState.started other).symm)
    simp only [Function.update_apply]
    split
    · rfl
    · rfl
  · intro id found hFound hOpen hMissing
    rw [hOutcome, hReactions, hReact]
    exact hState.reacting id found hFound hOpen hMissing
  · refine ⟨?_, ?_, ?_, ?_⟩
    · intro id hOwn
      rcases hState.queued.known id ((hReact id).mp hOwn) with
        ⟨found, hFound, hSome⟩
      refine ⟨found, hFound, ?_⟩
      rw [hOutcome]
      exact hSome
    · intro other hOther hNone
      rw [hOutcome] at hNone
      rw [hReactions]
      exact hState.queued.pending other hOther hNone
    · intro other
      rw [hOutcome, ← hState.queued.told other, ← hAfter]
      exact
        congrArg
          (fun settled => settledAfter settled jobs other)
          hSettled
    · rw [← hSettled] at hOrdered
      exact hOrdered

theorem Invariant.job_start
    (hState : Invariant none state)
    (hJobs : state.jobs = .start operation :: jobs) :
    Invariant none
      ({ state with jobs := jobs }.perform
        (.start operation)) := by
  have hStarted := hState.started
  simp only [hJobs, List.countP_cons, Job.isStart,
    beq_iff_eq] at hStarted
  have hCreated : operation < state.nextOperation := by
    have hOwn := hStarted operation
    rw [if_pos rfl] at hOwn
    split at hOwn
    · assumption
    · omega
  have hSame :
      Function.update (settledOf state) operation
          (settledOf state operation) =
        settledOf state :=
    Function.update_eq_self _ _
  simp only [perform, change]
  refine
    hState.job_marked hJobs (fun _ hNever => by cases hNever)
      hCreated ?_ ?_ ?_
  · intro other
    have hOther := hStarted other
    by_cases hOwn : other = operation
    · subst hOwn
      rw [if_pos rfl] at hOther ⊢
      rw [← hOther]
      exact Nat.add_right_comm _ 1 _
    · rw [if_neg (Ne.symm hOwn)] at hOther
      rw [if_neg hOwn]
      exact hOther
  · rw [hJobs]
    exact congrArg (settledAfter · jobs) hSame
  · have hOrdered := hState.queued.ordered
    rw [hJobs] at hOrdered
    rw [← hSame] at hOrdered
    exact hOrdered

/- An entry is waited for: nobody is forgotten here. -/
theorem settle_eq
    (key : Key)
    (hState : Invariant none state) :
    { state with jobs := jobs }.settle key operation =
      { state with
        shared :=
          Function.update state.shared operation
            { state.shared operation with settled := true }
        jobs := jobs } := by
  unfold settle
  simp only [change, Function.update_self]
  split
  · rename_i hNone
    unfold forget
    simp only
    split
    · rename_i hEntry
      have hAwaited := (hState.mapped key _ hEntry).awaited
      have hCounted := hState.counted operation
      omega
    · rfl
  · rfl

theorem Invariant.job_settled
    {key : Key}
    (hState : Invariant none state)
    (hJobs : state.jobs = .settled key operation :: jobs) :
    Invariant none
      ({ state with jobs := jobs }.perform
        (.settled key operation)) := by
  have hDone :
      (state.shared operation).outcome.isSome = true := by
    rw [← hState.queued.told operation, settledAfter_iff]
    refine Or.inr ⟨key, ?_⟩
    rw [hJobs]
    exact List.mem_cons_self
  have hCreated : operation < state.nextOperation := by
    by_contra hNew
    rw [hState.fresh operation (Nat.le_of_not_lt hNew)] at hDone
    cases hDone
  simp only [perform, settle_eq key hState]
  refine
    hState.job_marked hJobs (fun _ hNever => by cases hNever)
      hCreated ?_ ?_ ?_
  · intro other
    have hStarted := hState.started other
    rw [hJobs, List.countP_cons] at hStarted
    simp only [Job.isStart, Bool.false_eq_true, ↓reduceIte,
      Nat.add_zero] at hStarted
    rw [← hStarted]
    split
    · rename_i hSame
      rw [hSame]
    · rfl
  · rw [hJobs]
    rfl
  · have hOrdered := hState.queued.ordered
    rw [hJobs] at hOrdered
    exact hOrdered

variable {id : WaiterId}

/- The waiter that is told next may be missing. -/
theorem Invariant.pop_react
    (hState : Invariant none state)
    (hJobs : state.jobs = .react id :: jobs) :
    Invariant (some id) { state with jobs := jobs } := by
  have hQueued := hState.queued
  have hMem :
      ∀ job, job ∈ jobs → job ∈ state.jobs := by
    intro job hJob
    rw [hJobs]
    exact List.mem_cons_of_mem _ hJob
  refine
    hState.reshared (fun _ _ => rfl) (fun _ => rfl)
      (fun _ => rfl) (fun _ _ hOutcome => hOutcome) ?_ ?_ ?_
  · intro other
    rw [hJobs, List.countP_cons]
    rfl
  · intro other found hFound hOpen hMissing
    have hBefore :=
      hState.reacting other found hFound hOpen (by simp)
    refine ⟨hBefore.1, fun hSome => ?_⟩
    have hJob := hBefore.2 hSome
    rw [hJobs] at hJob
    rcases List.mem_cons.mp hJob with hFirst | hRest
    · injection hFirst with hSame
      exact absurd (congrArg some hSame.symm) hMissing
    · exact hRest
  · refine ⟨?_, hQueued.pending, ?_, ?_⟩
    · intro other hJob
      exact hQueued.known other (hMem _ hJob)
    · intro other
      have hTold := hQueued.told other
      rw [hJobs] at hTold
      exact hTold
    · have hOrdered := hQueued.ordered
      rw [hJobs] at hOrdered
      exact hOrdered.2

variable {waiter : Waiter Key Reason Outcome}

theorem Invariant.settled_all
    (hState : Invariant (some id) state)
    (hWaiter : state.waiters[id]? = some waiter)
    (hFinished : waiter.finished = true) :
    Invariant none state := by
  refine { hState with reacting := ?_ }
  intro other found hFound hOpen _
  refine hState.reacting other found hFound hOpen ?_
  intro hSame
  injection hSame with hSame
  subst hSame
  rw [hWaiter] at hFound
  injection hFound with hFound
  subst hFound
  rw [hFinished] at hOpen
  cases hOpen

theorem finish_finished
    (hWaiter : state.waiters[id]? = some waiter)
    (hFinished : waiter.finished = true)
    (settlement : Settlement Reason Outcome) :
    state.finish id settlement = state := by
  unfold finish
  rw [hWaiter]
  simp only [hFinished, ↓reduceIte]

theorem Invariant.job_react
    (hState : Invariant none state)
    (hJobs : state.jobs = .react id :: jobs) :
    Invariant none
      ({ state with jobs := jobs }.perform (.react id)) := by
  have hPopped := hState.pop_react hJobs
  have hJob : Job.react id ∈ state.jobs := by
    rw [hJobs]
    exact List.mem_cons_self
  rcases hState.queued.known id hJob with
    ⟨waiter, hWaiter, hSome⟩
  rcases Option.isSome_iff_exists.mp hSome with
    ⟨outcome, hOutcome⟩
  simp only [perform, hWaiter, hOutcome]
  cases hFinished : waiter.finished with
  | true =>
    have hThere :
        ({ state with jobs := jobs }).waiters[id]? =
          some waiter := hWaiter
    rw [finish_finished hThere hFinished]
    exact hPopped.settled_all hThere hFinished
  | false =>
    exact finish_invariant hPopped hWaiter hFinished hOutcome

theorem Invariant.job
    (hState : Invariant none state) :
    Invariant none (state.step .job) := by
  unfold step
  cases hJobs : state.jobs with
  | nil => exact hState
  | cons job jobs =>
    cases job with
    | start operation => exact hState.job_start hJobs
    | settled key operation =>
      exact hState.job_settled hJobs
    | react id => exact hState.job_react hJobs

----------
-- Outcomes and Aborts
----------

/- An operation whose promise gets its outcome. -/
def resolved
    (shared : SharedOperation Key Reason Outcome)
    (outcome : Outcome) : SharedOperation Key Reason Outcome :=
  { shared with
    outcome := some outcome
    reactions := [] }

section Resolved

variable {outcome : Outcome}

omit [DecidableEq Key] in
theorem resolved_outcome
    (hNone : (state.shared operation).outcome = none)
    (other : OperationId)
    (given : Outcome)
    (hGiven : (state.shared other).outcome = some given) :
    (Function.update state.shared operation
        (resolved (state.shared operation) outcome)
        other).outcome = some given := by
  have hNe : other ≠ operation := by
    intro hSame
    rw [hSame, hNone] at hGiven
    cases hGiven
  rw [Function.update_of_ne hNe]
  exact hGiven

variable {key : Key} {rest : List (Job Key)}

omit [DecidableEq Key] in
/- Whoever is told from now on is told of an outcome. -/
theorem Jobs.resolved_known
    (hState : Jobs state)
    (hNone : (state.shared operation).outcome = none)
    (hRest :
      ∀ job ∈ rest, ∃ id,
        job = .react id ∧ operationOf state id = some operation)
    (hJob :
      Job.react id ∈
        state.jobs ++ .settled key operation :: rest) :
    ∃ waiter,
      state.waiters[id]? = some waiter ∧
        (Function.update state.shared operation
          (resolved (state.shared operation) outcome)
          waiter.operation).outcome.isSome := by
  rcases List.mem_append.mp hJob with hOld | hNew
  · rcases hState.known id hOld with ⟨found, hFound, hSome⟩
    rcases Option.isSome_iff_exists.mp hSome with
      ⟨given, hGiven⟩
    refine ⟨found, hFound, ?_⟩
    rw [resolved_outcome hNone _ given hGiven]
    rfl
  · rcases List.mem_cons.mp hNew with hFirst | hLater
    · cases hFirst
    · rcases hRest _ hLater with ⟨other, hReact, hSame⟩
      injection hReact with hId
      subst hId
      rcases Option.map_eq_some_iff.mp hSame with
        ⟨found, hFound, rfl⟩
      refine ⟨found, hFound, ?_⟩
      rw [Function.update_self]
      rfl

omit [DecidableEq Key] in
/- The operation is told, and no other. -/
theorem Jobs.resolved_told
    (hState : Jobs state)
    (hRest : Quiet rest)
    (other : OperationId) :
    settledAfter (settledOf state)
        (state.jobs ++ .settled key operation :: rest) other =
      (Function.update state.shared operation
        (resolved (state.shared operation) outcome)
        other).outcome.isSome := by
  have hTold := hState.told other
  rw [Bool.eq_iff_iff, settledAfter_iff] at hTold ⊢
  by_cases hSame : other = operation
  · subst hSame
    rw [Function.update_self]
    refine iff_of_true (Or.inr ⟨key, ?_⟩) rfl
    exact List.mem_append_right _ List.mem_cons_self
  · rw [Function.update_of_ne hSame, ← hTold]
    refine or_congr_right (exists_congr fun name => ?_)
    rw [List.mem_append]
    refine or_iff_left ?_
    intro hJob
    rcases List.mem_cons.mp hJob with hFirst | hLater
    · injection hFirst with _ hThis
      exact hSame hThis
    · exact hRest name other hLater

omit [DecidableEq Key] in
/- The operation is told first, then its waiters. -/
theorem Jobs.resolved_ordered
    (hState : Jobs state)
    (hQuiet : Quiet rest)
    (hRest :
      ∀ job ∈ rest, ∃ id,
        job = .react id ∧
          operationOf state id = some operation) :
    Ordered (operationOf state) (settledOf state)
      (state.jobs ++ .settled key operation :: rest) := by
  refine ordered_append.mpr ⟨hState.ordered, ?_⟩
  unfold Ordered
  refine ordered_quiet hQuiet ?_
  intro id hJob other hOperation
  rcases hRest _ hJob with ⟨given, hReact, hSame⟩
  injection hReact with hId
  subst hId
  rw [hSame] at hOperation
  injection hOperation with hThis
  rw [← hThis]
  exact Function.update_self _ _ _

omit [DecidableEq Key] in
theorem Jobs.resolved
    (hState : Jobs state)
    (hNone : (state.shared operation).outcome = none)
    (hReactions :
      (state.shared operation).reactions =
        .settled key operation :: rest)
    (hRest :
      ∀ job ∈ rest, ∃ id,
        job = .react id ∧
          operationOf state id = some operation) :
    Jobs
      { state with
        shared :=
          Function.update state.shared operation
            (resolved (state.shared operation) outcome)
        jobs :=
          state.jobs ++ (state.shared operation).reactions } := by
  have hQuiet : Quiet rest := by
    intro name other hJob
    rcases hRest _ hJob with ⟨id, hReact, _⟩
    cases hReact
  have hSettled :
      (fun other =>
          (Function.update state.shared operation
            (Coalescing.resolved (state.shared operation) outcome)
            other).settled) =
        settledOf state :=
    funext (shared_update SharedOperation.settled (by rfl))
  rw [hReactions]
  refine ⟨?_, ?_, ?_, ?_⟩
  · exact fun _ => hState.resolved_known hNone hRest
  · intro other hLess hWaits
    have hNe : other ≠ operation := by
      rintro rfl
      simp only [Function.update_self] at hWaits
      cases hWaits
    simp only [Function.update_of_ne hNe] at hWaits ⊢
    exact hState.pending other hLess hWaits
  · intro other
    rw [← hState.resolved_told hQuiet other, ← hSettled]
    rfl
  · have hOrdered :
        Ordered (operationOf state) (settledOf state)
          (state.jobs ++ .settled key operation :: rest) :=
      hState.resolved_ordered hQuiet hRest
    rw [← hSettled] at hOrdered
    exact hOrdered

end Resolved

theorem Invariant.outcome
    (hState : Invariant none state)
    (operation : OperationId)
    (outcome : Outcome) :
    Invariant none (state.step (.outcome operation outcome)) := by
  unfold step
  simp only
  split
  · exact hState
  rename_i hReady
  have hRan : (state.shared operation).starts ≠ 0 :=
    fun hZero => hReady (Or.inl hZero)
  have hNone : (state.shared operation).outcome = none :=
    Option.not_isSome_iff_eq_none.mp fun hSome =>
      hReady (Or.inr hSome)
  have hCreated : operation < state.nextOperation := by
    by_contra hNew
    rw [hState.fresh operation (Nat.le_of_not_lt hNew)] at hRan
    exact hRan rfl
  rcases hState.queued.pending operation hCreated hNone with
    ⟨key, rest, hReactions, hRest⟩
  refine
    hState.reshared ?_
      (shared_update SharedOperation.waiters (by rfl))
      (shared_update SharedOperation.aborted (by rfl))
      (resolved_outcome hNone) ?_ ?_
      (hState.queued.resolved hNone hReactions hRest)
  · intro other hNew
    exact
      Function.update_of_ne
        (Nat.ne_of_gt (Nat.lt_of_lt_of_le hCreated hNew)) _ _
  · intro other
    have hZero :
        (state.shared operation).reactions.countP
            (Job.isStart other) = 0 := by
      rw [hReactions]
      refine List.countP_eq_zero.mpr ?_
      intro job hJob
      rcases List.mem_cons.mp hJob with rfl | hLater
      · exact Bool.false_ne_true
      · rcases hRest job hLater with ⟨id, rfl, _⟩
        exact Bool.false_ne_true
    rw [List.countP_append, hZero, Nat.add_zero,
      shared_update SharedOperation.starts (by rfl)]
  · intro id found hFound hOpen hMissing
    have hBefore := hState.reacting id found hFound hOpen hMissing
    by_cases hSame : found.operation = operation
    · rw [hSame] at hBefore ⊢
      rw [Function.update_self]
      refine ⟨fun hNever => ?_, fun _ => ?_⟩
      · cases hNever
      · exact List.mem_append_right _ (hBefore.1 hNone)
    · rw [Function.update_of_ne hSame]
      exact
        ⟨hBefore.1,
          fun hSome =>
            List.mem_append_left _ (hBefore.2 hSome)⟩

theorem Invariant.abort
    (hState : Invariant none state)
    (signal : SignalId)
    (reason : Reason) :
    Invariant none (state.step (.abort signal reason)) := by
  unfold step
  refine
    ⟨hState.fresh, hState.owned, hState.counted,
      hState.started, ?_, hState.cancelled, ?_,
      hState.reacting, ?_⟩
  · intro key operation hEntry
    exact (hState.mapped key operation hEntry).kept rfl rfl rfl
  · intro waiter hWaiter
    refine
      (hState.answered waiter hWaiter).kept
        (fun _ _ hOutcome => hOutcome) ?_
    intro other given hGiven
    by_cases hSame : other = signal
    · subst hSame
      simp only [Function.update_self, hGiven, Option.getD_some]
    · simp only [Function.update_of_ne hSame]
      exact hGiven
  · exact
      hState.queued.kept rfl rfl (fun _ => rfl)
        (fun _ => rfl) (fun _ => rfl)
        (fun _ _ hOperation => hOperation)

/- A listener either finds nothing to do or finishes. -/
theorem Invariant.heard
    (hState : Invariant none state)
    (id : WaiterId) :
    state.step (.listener id) = state ∨
      ∃ waiter reason,
        state.waiters[id]? = some waiter ∧
          waiter.finished = false ∧
          state.signals waiter.signal = some reason ∧
          state.step (.listener id) =
            state.finish id (.aborted (some reason)) := by
  unfold step
  cases hWaiter : state.waiters[id]? with
  | none => exact .inl (by simp only [hWaiter])
  | some waiter =>
    cases hSignal : state.signals waiter.signal with
    | none => exact .inl (by simp only [hWaiter, hSignal])
    | some reason =>
      simp only [hWaiter, hSignal]
      split
      · rename_i hListening
        have hAnswered :=
          hState.answered waiter (List.mem_of_getElem? hWaiter)
        have hOpen : waiter.finished = false := by
          rw [hAnswered.listening,
            Bool.not_eq_true'] at hListening
          exact hListening
        exact .inr ⟨waiter, reason, rfl, hOpen, hSignal, rfl⟩
      · exact .inl rfl

theorem Invariant.listener
    (hState : Invariant none state)
    (id : WaiterId) :
    Invariant none (state.step (.listener id)) := by
  rcases hState.heard id with
    hSame | ⟨waiter, reason, hWaiter, hOpen, hSignal, hStep⟩
  · rw [hSame]
    exact hState
  · rw [hStep]
    exact
      finish_invariant (hState.weaken id) hWaiter hOpen
        ⟨rfl, hSignal⟩

/- Every event keeps the invariant. -/
theorem step_invariant
    (state : Coalescer Key Reason Outcome)
    (event : Event Key Reason Outcome)
    (hState : Invariant none state) :
    Invariant none (state.step event) := by
  cases event with
  | run key signal => exact run_invariant hState key signal
  | job => exact hState.job
  | outcome operation outcome =>
    exact hState.outcome operation outcome
  | abort signal reason => exact hState.abort signal reason
  | listener id => exact hState.listener id

theorem start_invariant :
    Invariant none
      (Coalescer.start : Coalescer Key Reason Outcome) := by
  refine ⟨?_, ?_, ?_, ?_, ?_, ?_, ?_, ?_, ?_⟩
  · exact fun _ _ => rfl
  · exact fun _ hWaiter => absurd hWaiter List.not_mem_nil
  · exact fun _ => rfl
  · intro operation
    exact (if_neg (Nat.not_lt_zero operation)).symm
  · intro key operation hEntry
    cases hEntry
  · exact fun _ hAborted => absurd rfl hAborted
  · exact fun _ hWaiter => absurd hWaiter List.not_mem_nil
  · intro id waiter hWaiter
    cases hWaiter
  · refine ⟨?_, ?_, fun _ => rfl, trivial⟩
    · exact fun _ hJob => absurd hJob List.not_mem_nil
    · exact fun _ hLess => absurd hLess (Nat.not_lt_zero _)

----------
-- Leaving and Joining
----------

/- A waiter that is finished and was not before. -/
structure Leaves
    (state after : Coalescer Key Reason Outcome)
    (id : WaiterId)
    (waiter : Waiter Key Reason Outcome) : Prop where
  found : after.waiters[id]? = some waiter
  finished : waiter.finished = true
  before :
    ∀ old,
      state.waiters[id]? = some old → old.finished = false

/- The last waiter of an operation that has not settled. -/
def LeavesLast
    (state after : Coalescer Key Reason Outcome)
    (id : WaiterId)
    (waiter : Waiter Key Reason Outcome) : Prop :=
  Leaves state after id waiter ∧
    unfinished after.waiters waiter.operation = 0 ∧
    (after.shared waiter.operation).settled = false

/-
  An operation is cancelled by the last waiter that leaves
  it, whose own signal was aborted; what is finished stays.
-/
structure Fate
    (state after : Coalescer Key Reason Outcome) : Prop where
  cancelled :
    ∀ operation,
      (state.shared operation).aborted = none ∧
          (after.shared operation).aborted ≠ none ↔
        ∃ id waiter,
          LeavesLast state after id waiter ∧
            waiter.operation = operation
  reason :
    ∀ id waiter,
      LeavesLast state after id waiter →
        (after.shared waiter.operation).aborted =
            some (after.signals waiter.signal) ∧
          waiter.settlements =
            [.aborted (after.signals waiter.signal)]
  stays :
    ∀ operation reason,
      (state.shared operation).aborted = some reason →
        (after.shared operation).aborted = some reason
  kept :
    ∀ (id : WaiterId) (waiter : Waiter Key Reason Outcome),
      state.waiters[id]? = some waiter →
        ∃ later : Waiter Key Reason Outcome,
          after.waiters[id]? = some later ∧
            later.key = waiter.key ∧
            later.operation = waiter.operation ∧
            later.signal = waiter.signal ∧
            (waiter.finished = true → later = waiter)

omit [DecidableEq Key] in
theorem Fate.quiet
    {state after : Coalescer Key Reason Outcome}
    (hAborted :
      ∀ operation,
        (after.shared operation).aborted =
          (state.shared operation).aborted)
    (hWaiters : after.waiters = state.waiters) :
    Fate state after := by
  have hNone :
      ∀ id waiter, ¬ LeavesLast state after id waiter := by
    intro id waiter hLast
    have hFound := hLast.1.found
    rw [hWaiters] at hFound
    have hOld := hLast.1.before waiter hFound
    rw [hLast.1.finished] at hOld
    cases hOld
  refine ⟨?_, ?_, ?_, ?_⟩
  · intro operation
    rw [hAborted]
    constructor
    · rintro ⟨hWas, hIs⟩
      exact absurd hWas hIs
    · rintro ⟨id, waiter, hLast, _⟩
      exact absurd hLast (hNone id waiter)
  · intro id waiter hLast
    exact absurd hLast (hNone id waiter)
  · intro operation reason hReason
    exact (hAborted operation).trans hReason
  · intro id waiter hWaiter
    rw [hWaiters]
    exact ⟨waiter, hWaiter, rfl, rfl, rfl, fun _ => rfl⟩

omit [DecidableEq Key] in
/- Whoever enters in between has not left. -/
theorem Fate.since
    {state between after : Coalescer Key Reason Outcome}
    (hFate : Fate between after)
    (hAborted :
      ∀ operation,
        (between.shared operation).aborted =
          (state.shared operation).aborted)
    (hOld :
      ∀ (id : WaiterId) (old : Waiter Key Reason Outcome),
        state.waiters[id]? = some old →
          between.waiters[id]? = some old)
    (hNew :
      ∀ (id : WaiterId) (old : Waiter Key Reason Outcome),
        between.waiters[id]? = some old →
          old.finished = false ∨
            state.waiters[id]? = some old) :
    Fate state after := by
  have hLeaves : ∀ id waiter,
      LeavesLast state after id waiter ↔
        LeavesLast between after id waiter := by
    intro id waiter
    constructor
    · rintro ⟨hLeaves, hRest⟩
      refine ⟨⟨hLeaves.found, hLeaves.finished, ?_⟩, hRest⟩
      intro old hThere
      rcases hNew id old hThere with hOpen | hBefore
      · exact hOpen
      · exact hLeaves.before old hBefore
    · rintro ⟨hLeaves, hRest⟩
      refine ⟨⟨hLeaves.found, hLeaves.finished, ?_⟩, hRest⟩
      intro old hThere
      exact hLeaves.before old (hOld id old hThere)
  refine ⟨?_, ?_, ?_, ?_⟩
  · intro operation
    rw [← hAborted operation, hFate.cancelled]
    simp only [hLeaves]
  · intro id waiter hLast
    exact hFate.reason id waiter ((hLeaves id waiter).mp hLast)
  · intro operation reason hReason
    exact
      hFate.stays operation reason
        ((hAborted operation).trans hReason)
  · intro id waiter hWaiter
    exact hFate.kept id waiter (hOld id waiter hWaiter)

variable {settlement : Settlement Reason Outcome}

/- Nobody else leaves, and who leaves may not be the last. -/
theorem leavesLast_left
    {other : WaiterId}
    {found : Waiter Key Reason Outcome}
    (hState : Invariant (some id) state)
    (hWaiter : state.waiters[id]? = some waiter)
    (hOld : waiter.finished = false) :
    LeavesLast state (left state id waiter settlement) other
        found ↔
      (other = id ∧ found = finishedWaiter waiter settlement) ∧
        (state.shared waiter.operation).waiters - 1 = 0 ∧
        (state.shared waiter.operation).settled = false := by
  have hCounted :=
    left_counted settlement hState hWaiter hOld waiter.operation
  have hSettled :
      ((left state id waiter settlement).shared
          waiter.operation).settled =
        (state.shared waiter.operation).settled :=
    shared_update SharedOperation.settled (by rfl) _
  have hLess := (List.getElem?_eq_some_iff.mp hWaiter).1
  simp only [left, Function.update_self, leave] at hCounted
  constructor
  · rintro ⟨hLeaves, hLast, hOpen⟩
    rcases getElem_set_cases hLeaves.found with
      ⟨rfl, rfl⟩ | ⟨_, hThere⟩
    · simp only [left, finishedWaiter] at hLast hCounted
      exact ⟨⟨rfl, rfl⟩, by omega, hSettled.symm.trans hOpen⟩
    · have hStill := hLeaves.before found hThere
      rw [hLeaves.finished] at hStill
      cases hStill
  · rintro ⟨⟨rfl, rfl⟩, hLast, hOpen⟩
    refine ⟨⟨?_, rfl, ?_⟩, ?_, hSettled.trans hOpen⟩
    · exact List.getElem?_set_self hLess
    · intro old hThere
      rw [hWaiter] at hThere
      injection hThere with hThere
      rw [← hThere]
      exact hOld
    · simp only [left, finishedWaiter] at hCounted ⊢
      omega

/- Only who is told nothing can be the last to leave. -/
theorem finish_fate
    (hState : Invariant (some id) state)
    (hWaiter : state.waiters[id]? = some waiter)
    (hOld : waiter.finished = false)
    (hValid : Valid state waiter settlement)
    (hTold :
      ∀ outcome, settlement = .outcome outcome →
        (state.shared waiter.operation).settled = true) :
    Fate state (state.finish id settlement) := by
  have hRunning :
      (state.shared waiter.operation).aborted = none := by
    by_contra hAborted
    have hNone := hState.cancelled _ hAborted
    have hPositive := unfinished_pos hWaiter hOld
    omega
  have hAborted :
      ((left state id waiter settlement).shared
          waiter.operation).aborted =
        if (state.shared waiter.operation).waiters - 1 = 0 ∧
            (state.shared waiter.operation).settled = false then
          some (state.signals waiter.signal)
        else none := by
    simp only [left, Function.update_self, leave, hRunning,
      Option.getD_none]
  rw [finish_eq hWaiter hOld]
  refine ⟨?_, ?_, ?_, ?_⟩
  · intro operation
    simp only [leavesLast_left hState hWaiter hOld]
    constructor
    · rintro ⟨hWas, hIs⟩
      have hSame : operation = waiter.operation := by
        by_contra hNe
        rw [left_shared hNe] at hIs
        exact hIs hWas
      subst hSame
      rw [hAborted] at hIs
      exact
        ⟨id, finishedWaiter waiter settlement,
          ⟨⟨rfl, rfl⟩, by_contra fun hNot =>
            hIs (if_neg hNot)⟩, rfl⟩
    · rintro ⟨_, _, ⟨⟨rfl, rfl⟩, hLast⟩, rfl⟩
      refine ⟨hRunning, ?_⟩
      simp only [finishedWaiter]
      rw [hAborted, if_pos hLast]
      exact Option.some_ne_none _
  · intro other found hLeaves
    rcases (leavesLast_left hState hWaiter hOld).mp hLeaves with
      ⟨⟨rfl, rfl⟩, hLast⟩
    have hEmpty : waiter.settlements = [] :=
      (hState.answered waiter
        (List.mem_of_getElem? hWaiter)).waiting hOld
    refine ⟨hAborted.trans (if_pos hLast), ?_⟩
    simp only [finishedWaiter, hEmpty, List.nil_append]
    cases settlement with
    | outcome outcome =>
      have hOpen := hLast.2
      rw [hTold outcome rfl] at hOpen
      cases hOpen
    | aborted reason => rw [← hValid.2, left]
  · intro operation reason hReason
    have hNe : operation ≠ waiter.operation := by
      rintro rfl
      rw [hRunning] at hReason
      cases hReason
    rw [left_shared hNe]
    exact hReason
  · intro other found hFound
    by_cases hSame : id = other
    · subst hSame
      rw [hWaiter] at hFound
      injection hFound with hFound
      subst hFound
      refine
        ⟨finishedWaiter waiter settlement,
          List.getElem?_set_self
            (List.getElem?_eq_some_iff.mp hWaiter).1,
          rfl, rfl, rfl, ?_⟩
      intro hFinished
      rw [hOld] at hFinished
      cases hFinished
    · refine ⟨found, ?_, rfl, rfl, rfl, fun _ => rfl⟩
      exact (List.getElem?_set_ne hSame).trans hFound

----------
-- Moves
----------

/- What an event does to those that wait. -/
structure Moves
    (state : Coalescer Key Reason Outcome)
    (event : Event Key Reason Outcome)
    (after : Coalescer Key Reason Outcome) : Prop where
  fate : Fate state after
  joins :
    ∀ (id : WaiterId) (waiter : Waiter Key Reason Outcome),
      state.waiters[id]? = none →
        after.waiters[id]? = some waiter →
          event = .run waiter.key waiter.signal ∧
            (state.nextOperation ≤ waiter.operation ∨
              Joinable state waiter.key waiter.operation)
  enters :
    ∀ key signal,
      event = .run key signal →
        ∃ waiter : Waiter Key Reason Outcome,
          after.waiters[state.waiters.length]? =
              some waiter ∧
            waiter.key = key ∧ waiter.signal = signal

omit [DecidableEq Key] in
/- Nobody enters without a call of `run`. -/
theorem Moves.others
    {state after : Coalescer Key Reason Outcome}
    {event : Event Key Reason Outcome}
    (hFate : Fate state after)
    (hLength : after.waiters.length = state.waiters.length)
    (hEvent : ∀ key signal, event ≠ .run key signal) :
    Moves state event after := by
  refine ⟨hFate, ?_, ?_⟩
  · intro id waiter hNone hSome
    have hLess := (List.getElem?_eq_some_iff.mp hSome).1
    rw [hLength] at hLess
    exact
      absurd hLess
        (Nat.not_lt.mpr (List.getElem?_eq_none_iff.mp hNone))
  · intro key signal hSame
    exact absurd hSame (hEvent key signal)

theorem finish_same
    (state : Coalescer Key Reason Outcome)
    (id : WaiterId)
    (settlement : Settlement Reason Outcome) :
    (state.finish id settlement).waiters.length
        = state.waiters.length ∧
      (state.finish id settlement).jobs = state.jobs := by
  cases hWaiter : state.waiters[id]? with
  | none =>
    unfold finish
    rw [hWaiter]
    exact ⟨rfl, rfl⟩
  | some waiter =>
    cases hFinished : waiter.finished with
    | true =>
      rw [finish_finished hWaiter hFinished]
      exact ⟨rfl, rfl⟩
    | false =>
      rw [finish_eq hWaiter hFinished]
      exact ⟨List.length_set, rfl⟩

omit [DecidableEq Key] in
theorem whenSettled_waiters
    (state : Coalescer Key Reason Outcome)
    (operation : OperationId)
    (job : Job Key) :
    (state.whenSettled operation job).waiters =
        state.waiters ∧
      ∀ other,
        ((state.whenSettled operation job).shared
            other).aborted =
          (state.shared other).aborted := by
  unfold whenSettled
  split
  · exact ⟨rfl, fun _ => rfl⟩
  · exact
      ⟨rfl, shared_update SharedOperation.aborted (by rfl)⟩

theorem enter_aborted
    (hState : Invariant none state)
    (key : Key)
    (signal : SignalId)
    (operation : OperationId) :
    ((state.enter key signal).shared operation).aborted =
      (state.shared operation).aborted := by
  cases hEntry : state.operations.get key with
  | none =>
    rw [enter_none hEntry]
    exact
      created_read hState SharedOperation.aborted rfl operation
  | some found =>
    rw [enter_some hEntry]
    exact joined_aborted operation

/- Who is joined is awaited by somebody else. -/
theorem operationFor_joinable
    (hState : Invariant none state)
    (key : Key) :
    state.nextOperation ≤ (state.operationFor key).2 ∨
      Joinable state key (state.operationFor key).2 := by
  unfold operationFor
  cases hEntry : state.operations.get key with
  | none => exact Or.inl (Nat.le_refl _)
  | some operation =>
    exact Or.inr (hState.mapped key operation hEntry)

theorem run_moves
    (hState : Invariant none state)
    (key : Key)
    (signal : SignalId) :
    Moves state (.run key signal) (state.run key signal) := by
  have hEntered := enter_invariant hState key signal
  have hLast := enter_last state key signal
  have hWaiters := (enter_spec state key signal).1
  have hFate :
      Fate (state.enter key signal) (state.run key signal) := by
    unfold Coalescer.run
    simp only
    split
    · rename_i reason hAborted
      exact
        finish_fate hEntered hLast rfl ⟨rfl, hAborted⟩
          (fun _ hNever => by cases hNever)
    · have hKept :=
        whenSettled_waiters (state.enter key signal)
          (state.operationFor key).2
          (.react state.waiters.length)
      exact Fate.quiet hKept.2 hKept.1
  have hLength :
      (state.run key signal).waiters.length =
        state.waiters.length + 1 := by
    have hMore :
        (state.enter key signal).waiters.length =
          state.waiters.length + 1 := by
      rw [hWaiters, List.length_append]
      rfl
    rw [← hMore]
    unfold Coalescer.run
    simp only
    split
    · exact (finish_same _ _ _).1
    · exact congrArg List.length (whenSettled_waiters _ _ _).1
  rcases hFate.kept _ _ hLast with
    ⟨later, hLater, hKey, hOperation, hSignal, _⟩
  refine
    ⟨hFate.since (enter_aborted hState key signal) ?_ ?_, ?_, ?_⟩
  · intro id old hThere
    rw [hWaiters, List.getElem?_append_left
      (List.getElem?_eq_some_iff.mp hThere).1]
    exact hThere
  · intro id old hThere
    rw [hWaiters] at hThere
    rcases getElem_append_cases hThere with
      ⟨_, rfl⟩ | hBefore
    · exact Or.inl rfl
    · exact Or.inr hBefore
  · intro id waiter hNone hSome
    have hLess := (List.getElem?_eq_some_iff.mp hSome).1
    have hMore := List.getElem?_eq_none_iff.mp hNone
    rw [hLength] at hLess
    have hId : id = state.waiters.length :=
      Nat.le_antisymm (Nat.le_of_lt_succ hLess) hMore
    subst hId
    rw [hLater] at hSome
    injection hSome with hSame
    subst hSame
    rw [hKey, hOperation, hSignal]
    exact ⟨rfl, operationFor_joinable hState key⟩
  · rintro other found ⟨rfl, rfl⟩
    exact ⟨later, hLater, hKey, hSignal⟩

theorem job_moves
    (hState : Invariant none state) :
    Moves state .job (state.step .job) := by
  unfold step
  cases hJobs : state.jobs with
  | nil =>
    exact
      Moves.others (Fate.quiet (fun _ => rfl) rfl) rfl
        (fun _ _ hNever => by cases hNever)
  | cons job jobs =>
    cases job with
    | start operation =>
      exact
        Moves.others
          (Fate.quiet
            (shared_update SharedOperation.aborted (by rfl))
            rfl)
          rfl (fun _ _ hNever => by cases hNever)
    | settled key operation =>
      simp only [perform, settle_eq key hState]
      exact
        Moves.others
          (Fate.quiet
            (shared_update SharedOperation.aborted (by rfl))
            rfl)
          rfl (fun _ _ hNever => by cases hNever)
    | react id =>
      have hPopped := hState.pop_react hJobs
      have hJob : Job.react id ∈ state.jobs := by
        rw [hJobs]
        exact List.mem_cons_self
      rcases hState.queued.known id hJob with
        ⟨waiter, hWaiter, hSome⟩
      rcases Option.isSome_iff_exists.mp hSome with
        ⟨outcome, hOutcome⟩
      have hSettled :
          (state.shared waiter.operation).settled = true := by
        have hOrdered := hState.queued.ordered
        rw [hJobs] at hOrdered
        refine hOrdered.1 waiter.operation ?_
        unfold operationOf
        rw [hWaiter]
        rfl
      simp only [perform, hWaiter, hOutcome]
      have hThere :
          ({ state with jobs := jobs }).waiters[id]? =
            some waiter := hWaiter
      refine
        Moves.others ?_ (finish_same _ _ _).1
          (fun _ _ hNever => by cases hNever)
      cases hFinished : waiter.finished with
      | true =>
        rw [finish_finished hThere hFinished]
        exact Fate.quiet (fun _ => rfl) rfl
      | false =>
        have hValid :
            Valid { state with jobs := jobs } waiter
              (.outcome outcome) := hOutcome
        have hFate :=
          finish_fate hPopped hThere hFinished hValid
            (fun _ _ => hSettled)
        exact
          hFate.since (fun _ => rfl)
            (fun _ _ hThere => hThere)
            (fun _ _ hThere => Or.inr hThere)

theorem listener_moves
    (hState : Invariant none state)
    (id : WaiterId) :
    Moves state (.listener id) (state.step (.listener id)) := by
  rcases hState.heard id with
    hSame | ⟨waiter, reason, hWaiter, hOpen, hSignal, hStep⟩
  · rw [hSame]
    exact
      Moves.others (Fate.quiet (fun _ => rfl) rfl) rfl
        (fun _ _ hNever => by cases hNever)
  · rw [hStep]
    exact
      Moves.others
        (finish_fate (hState.weaken id) hWaiter hOpen
          ⟨rfl, hSignal⟩
          (fun _ hNever => by cases hNever))
        (finish_same _ _ _).1
        (fun _ _ hNever => by cases hNever)

theorem step_moves
    (hState : Invariant none state)
    (event : Event Key Reason Outcome) :
    Moves state event (state.step event) := by
  cases event with
  | run key signal => exact run_moves hState key signal
  | job => exact job_moves hState
  | outcome operation outcome =>
    unfold step
    simp only
    split
    · exact
        Moves.others (Fate.quiet (fun _ => rfl) rfl) rfl
          (fun _ _ hNever => by cases hNever)
    · exact
        Moves.others
          (Fate.quiet
            (shared_update SharedOperation.aborted (by rfl))
            rfl)
          rfl (fun _ _ hNever => by cases hNever)
  | abort signal reason =>
    exact
      Moves.others (Fate.quiet (fun _ => rfl) rfl) rfl
        (fun _ _ hNever => by cases hNever)
  | listener id => exact listener_moves hState id

----------
-- Coalesced Requests
----------

/- A waiter is settled once, when it is finished. -/
def SettledOnce
    (state : Coalescer Key Reason Outcome)
    (waiter : Waiter Key Reason Outcome) : Prop :=
  if waiter.finished then
    ∃ settlement,
      waiter.settlements = [settlement] ∧
        Valid state waiter settlement
  else
    waiter.settlements = []

/-
  What holds between events; once the microtasks have run,
  everybody has been told what there is to tell.
-/
structure Coalesced
    (state : Coalescer Key Reason Outcome) : Prop where
  counted :
    ∀ operation,
      (state.shared operation).waiters =
        unfinished state.waiters operation
  started :
    ∀ operation,
      (state.shared operation).starts
          + state.jobs.countP (Job.isStart operation) =
        if operation < state.nextOperation then 1 else 0
  owned :
    ∀ waiter ∈ state.waiters,
      waiter.operation < state.nextOperation
  answered :
    ∀ waiter ∈ state.waiters, SettledOnce state waiter
  heard :
    ∀ (id : WaiterId) (waiter : Waiter Key Reason Outcome)
        reason,
      state.waiters[id]? = some waiter →
        waiter.finished = false →
          state.signals waiter.signal = some reason →
            ((state.step (.listener id)).waiters[id]?).map
                (·.settlements) =
              some [.aborted (some reason)]
  settled :
    ∀ operation,
      ((state.shared operation).settled = true ∨
          ∃ key, Job.settled key operation ∈ state.jobs) ↔
        (state.shared operation).outcome.isSome = true
  drains :
    (Transition.run Coalescer.step state
      (List.replicate state.jobs.length .job)).jobs = []
  drained :
    state.jobs = [] →
      ∀ waiter ∈ state.waiters,
        (state.shared waiter.operation).outcome.isSome →
          waiter.finished = true

theorem perform_jobs
    (state : Coalescer Key Reason Outcome)
    (job : Job Key) :
    (state.perform job).jobs = state.jobs := by
  cases job with
  | start operation => rfl
  | settled key operation =>
    unfold perform settle forget
    simp only
    split
    · split
      · rfl
      · rfl
    · rfl
  | react id =>
    unfold perform
    simp only
    split
    · rfl
    · split
      · rfl
      · exact (finish_same _ _ _).2

/- A microtask of the coalescer adds none. -/
theorem run_jobs
    (state : Coalescer Key Reason Outcome) :
    (Transition.run Coalescer.step state
      (List.replicate state.jobs.length .job)).jobs = [] := by
  generalize hJobs : state.jobs = jobs
  induction jobs generalizing state with
  | nil => exact hJobs
  | cons job jobs ih =>
    rw [List.length_cons, List.replicate_succ,
      Transition.run_cons]
    refine ih (state.step .job) ?_
    unfold step
    rw [hJobs]
    exact perform_jobs _ job

theorem Invariant.coalesced
    (hState : Invariant none state) :
    Coalesced state := by
  refine
    ⟨hState.counted, hState.started, hState.owned, ?_, ?_,
      ?_, run_jobs state, ?_⟩
  · intro waiter hWaiter
    have hAnswered := hState.answered waiter hWaiter
    unfold SettledOnce
    split
    · rename_i hFinished
      exact hAnswered.settled hFinished
    · rename_i hOpen
      exact hAnswered.waiting (Bool.not_eq_true _ ▸ hOpen)
  · intro id waiter reason hWaiter hOpen hSignal
    have hAnswered :=
      hState.answered waiter (List.mem_of_getElem? hWaiter)
    have hListening : waiter.listening = true := by
      rw [hAnswered.listening, hOpen]
      rfl
    have hLess := (List.getElem?_eq_some_iff.mp hWaiter).1
    unfold step
    simp only [hWaiter, hSignal, hListening, ↓reduceIte]
    rw [finish_eq hWaiter hOpen]
    simp only [left, List.getElem?_set_self hLess, Option.map_some,
      finishedWaiter, hAnswered.waiting hOpen,
      List.nil_append]
  · intro operation
    rw [← hState.queued.told operation, settledAfter_iff]
    rfl
  · intro hJobs waiter hWaiter hSome
    rcases List.getElem?_of_mem hWaiter with ⟨id, hId⟩
    by_contra hOpen
    have hJob :=
      (hState.reacting id waiter hId
        (Bool.not_eq_true _ ▸ hOpen) (by simp)).2 hSome
    rw [hJobs] at hJob
    cases hJob

/-
  Whatever happens in whatever order, requests for one key
  share one operation correctly.
-/
theorem coalescer_safe
    (events : List (Event Key Reason Outcome)) :
    Coalesced
        (Transition.run Coalescer.step
          (Coalescer.start : Coalescer Key Reason Outcome)
          events) ∧
      ∀ event,
        Moves
          (Transition.run Coalescer.step Coalescer.start
            events)
          event
          (Coalescer.step
            (Transition.run Coalescer.step Coalescer.start
              events)
            event) := by
  have hState :
      Invariant none
        (Transition.run Coalescer.step
          (Coalescer.start : Coalescer Key Reason Outcome)
          events) :=
    Transition.run_invariant step_invariant start_invariant
      events
  exact ⟨hState.coalesced, step_moves hState⟩

end Safety

end Coalescing

end ArktsServer
