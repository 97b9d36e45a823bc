import ArktsServer.Lsp.InFlightRequestCoalescer

/-
  The invariant of coalesced requests.  The count of an
  operation is that of its waiters that are not finished, an
  entry of the map can be joined, and the promise of an
  operation tells the operation before it tells the waiters.

  Key definitions include:
    * `unfinished`, `Ordered`
    * `Joinable`, `Answered`, `Jobs`
    * `Invariant`

  Correctness is proven by:
    * `finish_eq`, `finish_invariant`
    * `enter_invariant`, `run_invariant`
-/

namespace ArktsServer

namespace Coalescing

open Coalescer

section Safety

variable {Key Reason Outcome : Type} [DecidableEq Key]

----------
-- Counting
----------

/- The waiters of an operation that are not finished. -/
def unfinished
    (waiters : List (Waiter Key Reason Outcome))
    (operation : OperationId) : Nat :=
  waiters.countP fun waiter =>
    waiter.operation == operation && !waiter.finished

omit [DecidableEq Key] in
theorem unfinished_append
    (waiters : List (Waiter Key Reason Outcome))
    (waiter : Waiter Key Reason Outcome)
    (hWaiter : waiter.finished = false)
    (operation : OperationId) :
    unfinished (waiters ++ [waiter]) operation =
      unfinished waiters operation +
        if waiter.operation = operation then 1 else 0 := by
  unfold unfinished
  rw [List.countP_append, List.countP_singleton, hWaiter,
    Bool.not_false, Bool.and_true]
  simp only [beq_iff_eq]

variable {waiters : List (Waiter Key Reason Outcome)}
variable {id : WaiterId}

omit [DecidableEq Key] in
/- A waiter that finishes is counted no more. -/
theorem unfinished_set
    {waiter after : Waiter Key Reason Outcome}
    (hWaiter : waiters[id]? = some waiter)
    (hOld : waiter.finished = false)
    (hNew : after.finished = true)
    (operation : OperationId) :
    unfinished waiters operation =
      unfinished (waiters.set id after) operation +
        if waiter.operation = operation then 1 else 0 := by
  rcases List.getElem?_eq_some_iff.mp hWaiter with
    ⟨hLess, hGet⟩
  have hNone :
      (after.operation == operation && !after.finished) =
        false := by
    rw [hNew, Bool.not_true, Bool.and_false]
  unfold unfinished
  rw [List.countP_set hLess, hGet, hNone, hOld, Bool.not_false,
    Bool.and_true]
  simp only [beq_iff_eq, Bool.false_eq_true, ↓reduceIte,
    Nat.add_zero]
  split
  · rename_i hSame
    have hPositive :
        0 <
          waiters.countP fun waiter =>
            waiter.operation == operation
              && !waiter.finished := by
      refine
        List.countP_pos_iff.mpr
          ⟨waiter, List.mem_of_getElem? hWaiter, ?_⟩
      rw [hSame, hOld, beq_self_eq_true]
      rfl
    omega
  · rfl

variable {waiter : Waiter Key Reason Outcome}

omit [DecidableEq Key] in
theorem unfinished_pos
    (hWaiter : waiters[id]? = some waiter)
    (hOld : waiter.finished = false) :
    0 < unfinished waiters waiter.operation := by
  refine
    List.countP_pos_iff.mpr
      ⟨waiter, List.mem_of_getElem? hWaiter, ?_⟩
  rw [hOld, beq_self_eq_true]
  rfl

variable {operation : OperationId}

omit [DecidableEq Key] in
theorem exists_unfinished
    (hPositive : 0 < unfinished waiters operation) :
    ∃ waiter ∈ waiters,
      waiter.operation = operation ∧
        waiter.finished = false := by
  rcases List.countP_pos_iff.mp hPositive with
    ⟨waiter, hMem, hBoth⟩
  rw [Bool.and_eq_true, beq_iff_eq, Bool.not_eq_true'] at hBoth
  exact ⟨waiter, hMem, hBoth.1, hBoth.2⟩

----------
-- Jobs
----------

def Job.isStart
    (operation : OperationId) : Job Key → Bool
| .start other => other == operation
| .settled _ _ => false
| .react _ => false

/- What has settled once these jobs have run. -/
def settledAfter
    (settled : OperationId → Bool) :
    List (Job Key) → OperationId → Bool
| [] => settled
| .settled _ operation :: jobs =>
    settledAfter (Function.update settled operation true) jobs
| .start _ :: jobs => settledAfter settled jobs
| .react _ :: jobs => settledAfter settled jobs

/-
  The jobs of the waiters run only once their operations have
  settled.
-/
def Ordered
    (operationOf : WaiterId → Option OperationId)
    (settled : OperationId → Bool) :
    List (Job Key) → Prop
| [] => True
| .settled _ operation :: jobs =>
    Ordered operationOf
      (Function.update settled operation true) jobs
| .start _ :: jobs => Ordered operationOf settled jobs
| .react id :: jobs =>
    (∀ operation ∈ operationOf id, settled operation = true) ∧
      Ordered operationOf settled jobs

variable {settled : OperationId → Bool}
variable {jobs : List (Job Key)}

omit [DecidableEq Key] in
theorem settledAfter_iff
    {operation : OperationId} :
    settledAfter settled jobs operation = true ↔
      settled operation = true ∨
        ∃ key, Job.settled key operation ∈ jobs := by
  induction jobs generalizing settled with
  | nil => simp [settledAfter]
  | cons job jobs ih =>
    cases job with
    | start started =>
      rw [settledAfter, ih]
      simp
    | react id =>
      rw [settledAfter, ih]
      simp
    | settled key done =>
      rw [settledAfter, ih, Function.update_apply]
      by_cases hSame : operation = done
      · subst hSame
        simp
      · simp [hSame]

omit [DecidableEq Key] in
theorem ordered_append
    {operationOf : WaiterId → Option OperationId}
    {jobs more : List (Job Key)} :
    Ordered operationOf settled (jobs ++ more) ↔
      Ordered operationOf settled jobs ∧
        Ordered operationOf (settledAfter settled jobs)
          more := by
  induction jobs generalizing settled with
  | nil => exact ⟨fun hMore => ⟨trivial, hMore⟩, And.right⟩
  | cons job jobs ih =>
    cases job with
    | start started => exact ih
    | settled key done => exact ih
    | react id =>
      constructor
      · rintro ⟨hFirst, hRest⟩
        have hBoth := ih.mp hRest
        exact ⟨⟨hFirst, hBoth.1⟩, hBoth.2⟩
      · rintro ⟨⟨hFirst, hRest⟩, hMore⟩
        exact ⟨hFirst, ih.mpr ⟨hRest, hMore⟩⟩

omit [DecidableEq Key] in
theorem ordered_congr
    {operationOf other : WaiterId → Option OperationId}
    (hSame :
      ∀ id, Job.react id ∈ jobs →
        other id = operationOf id)
    (hOrdered : Ordered operationOf settled jobs) :
    Ordered other settled jobs := by
  induction jobs generalizing settled with
  | nil => trivial
  | cons job jobs ih =>
    have hRest :=
      fun id hMem =>
        hSame id (List.mem_cons_of_mem job hMem)
    cases job with
    | start started => exact ih hRest hOrdered
    | settled key done => exact ih hRest hOrdered
    | react id =>
      refine ⟨?_, ih hRest hOrdered.2⟩
      intro operation hOperation
      rw [hSame id List.mem_cons_self] at hOperation
      exact hOrdered.1 operation hOperation

/- Jobs that settle no operation. -/
def Quiet (jobs : List (Job Key)) : Prop :=
  ∀ key operation, Job.settled key operation ∉ jobs

omit [DecidableEq Key] in
/- Jobs of waiters whose operations have settled. -/
theorem ordered_quiet
    {operationOf : WaiterId → Option OperationId}
    (hQuiet : Quiet jobs)
    (hJobs :
      ∀ id, Job.react id ∈ jobs →
        ∀ operation ∈ operationOf id,
          settled operation = true) :
    Ordered operationOf settled jobs := by
  induction jobs with
  | nil => trivial
  | cons job jobs ih =>
    have hRest :=
      ih
        (fun key operation hMem =>
          hQuiet key operation (List.mem_cons_of_mem _ hMem))
        (fun id hMem => hJobs id (List.mem_cons_of_mem _ hMem))
    cases job with
    | start started => exact hRest
    | settled key done =>
      exact absurd List.mem_cons_self (hQuiet key done)
    | react id => exact ⟨hJobs id List.mem_cons_self, hRest⟩

omit [DecidableEq Key] in
theorem settledAfter_quiet
    {jobs more : List (Job Key)}
    (hQuiet : Quiet more) :
    settledAfter settled (jobs ++ more) operation =
      settledAfter settled jobs operation := by
  rw [Bool.eq_iff_iff, settledAfter_iff, settledAfter_iff]
  refine or_congr_right (exists_congr fun key => ?_)
  rw [List.mem_append]
  exact or_iff_left (hQuiet key operation)

----------
-- Invariants
----------

def operationOf
    (state : Coalescer Key Reason Outcome)
    (id : WaiterId) : Option OperationId :=
  (state.waiters[id]?).map (·.operation)

def settledOf
    (state : Coalescer Key Reason Outcome)
    (operation : OperationId) : Bool :=
  (state.shared operation).settled

/- The outcome of the operation, or the waiter's own abort. -/
def Valid
    (state : Coalescer Key Reason Outcome)
    (waiter : Waiter Key Reason Outcome) :
    Settlement Reason Outcome → Prop
| .outcome outcome =>
    (state.shared waiter.operation).outcome = some outcome
| .aborted reason =>
    reason.isSome ∧ state.signals waiter.signal = reason

/- A waiter is settled once, when it is finished. -/
structure Answered
    (state : Coalescer Key Reason Outcome)
    (waiter : Waiter Key Reason Outcome) : Prop where
  listening : waiter.listening = !waiter.finished
  waiting : waiter.finished = false → waiter.settlements = []
  settled :
    waiter.finished = true →
      ∃ settlement,
        waiter.settlements = [settlement] ∧
          Valid state waiter settlement

/- An entry of the map can be joined. -/
structure Joinable
    (state : Coalescer Key Reason Outcome)
    (key : Key)
    (operation : OperationId) : Prop where
  created : operation < state.nextOperation
  running : (state.shared operation).aborted = none
  awaited : 0 < unfinished state.waiters operation
  keys :
    ∀ waiter ∈ state.waiters,
      waiter.operation = operation → waiter.key = key

/- What is told to the waiters once there is an outcome. -/
structure Jobs
    (state : Coalescer Key Reason Outcome) : Prop where
  known :
    ∀ id,
      Job.react id ∈ state.jobs →
        ∃ waiter,
          state.waiters[id]? = some waiter ∧
            (state.shared waiter.operation).outcome.isSome
  pending :
    ∀ operation < state.nextOperation,
      (state.shared operation).outcome = none →
        ∃ key rest,
          (state.shared operation).reactions =
              .settled key operation :: rest ∧
            ∀ job ∈ rest, ∃ id,
              job = .react id ∧
                operationOf state id = some operation
  told :
    ∀ operation,
      settledAfter (settledOf state) state.jobs operation =
        (state.shared operation).outcome.isSome
  ordered :
    Ordered (operationOf state) (settledOf state) state.jobs

/-
  The invariant; the job of one waiter may be missing, of one
  that is about to be told.
-/
structure Invariant
    (missing : Option WaiterId)
    (state : Coalescer Key Reason Outcome) : Prop where
  fresh :
    ∀ operation,
      state.nextOperation ≤ operation →
        state.shared operation = {}
  owned :
    ∀ waiter ∈ state.waiters,
      waiter.operation < state.nextOperation
  counted :
    ∀ operation,
      (state.shared operation).waiters =
        unfinished state.waiters operation
  started :
    ∀ operation,
      (state.shared operation).starts
          + state.jobs.countP (Job.isStart operation) =
        if operation < state.nextOperation then 1 else 0
  mapped :
    ∀ key operation,
      state.operations.get key = some operation →
        Joinable state key operation
  cancelled :
    ∀ operation,
      (state.shared operation).aborted ≠ none →
        unfinished state.waiters operation = 0
  answered : ∀ waiter ∈ state.waiters, Answered state waiter
  reacting :
    ∀ id waiter,
      state.waiters[id]? = some waiter →
        waiter.finished = false → missing ≠ some id →
          ((state.shared waiter.operation).outcome = none →
            Job.react id ∈
              (state.shared waiter.operation).reactions) ∧
          ((state.shared waiter.operation).outcome.isSome →
            Job.react id ∈ state.jobs)
  queued : Jobs state

variable {state : Coalescer Key Reason Outcome}

theorem Invariant.weaken
    (hState : Invariant none state)
    (id : WaiterId) :
    Invariant (some id) state :=
  { hState with
    reacting := fun other waiter hWaiter hOld _ =>
      hState.reacting other waiter hWaiter hOld (by simp) }

----------
-- Frames
----------

variable {state after : Coalescer Key Reason Outcome}

omit [DecidableEq Key] in
theorem operationOf_eq
    (hWaiter : state.waiters[id]? = some waiter) :
    operationOf state id = some waiter.operation := by
  unfold operationOf
  rw [hWaiter]
  rfl

omit [DecidableEq Key] in
/- What an update of one operation does not touch. -/
theorem shared_update
    {α : Type}
    {changed : SharedOperation Key Reason Outcome}
    (read : SharedOperation Key Reason Outcome → α)
    (hKept : read changed = read (state.shared operation))
    (other : OperationId) :
    read (Function.update state.shared operation changed other) =
      read (state.shared other) := by
  rw [Function.update_apply]
  split
  · rename_i hSame
    rw [hSame]
    exact hKept
  · rfl

omit [DecidableEq Key] in
/- What was answered stays so while what is read is kept. -/
theorem Answered.kept
    (hState : Answered state waiter)
    (hOutcome :
      ∀ operation outcome,
        (state.shared operation).outcome = some outcome →
          (after.shared operation).outcome = some outcome)
    (hSignals :
      ∀ signal reason,
        state.signals signal = some reason →
          after.signals signal = some reason) :
    Answered after waiter := by
  refine ⟨hState.listening, hState.waiting, ?_⟩
  intro hFinished
  rcases hState.settled hFinished with
    ⟨settlement, hGiven, hValid⟩
  refine ⟨settlement, hGiven, ?_⟩
  cases settlement with
  | outcome outcome => exact hOutcome _ outcome hValid
  | aborted reason =>
    rcases Option.isSome_iff_exists.mp hValid.1 with
      ⟨given, rfl⟩
    exact ⟨rfl, hSignals _ given hValid.2⟩

omit [DecidableEq Key] in
theorem Joinable.kept
    {key : Key}
    (hState : Joinable state key operation)
    (hNext : after.nextOperation = state.nextOperation)
    (hWaiters : after.waiters = state.waiters)
    (hRunning :
      (after.shared operation).aborted =
        (state.shared operation).aborted) :
    Joinable after key operation := by
  refine ⟨?_, hRunning.trans hState.running, ?_, ?_⟩
  · rw [hNext]
    exact hState.created
  · rw [hWaiters]
    exact hState.awaited
  · rw [hWaiters]
    exact hState.keys

omit [DecidableEq Key] in
/- Jobs that settle nothing may be added. -/
theorem Jobs.added
    (hState : Jobs state)
    (more : List (Job Key))
    (hJobs : after.jobs = state.jobs ++ more)
    (hOutcome :
      ∀ operation,
        (after.shared operation).outcome =
          (state.shared operation).outcome)
    (hSettled :
      ∀ operation,
        (after.shared operation).settled =
          (state.shared operation).settled)
    (hOperation :
      ∀ id operation,
        operationOf state id = some operation →
          operationOf after id = some operation)
    (hQuiet : Quiet more)
    (hMore :
      ∀ id, Job.react id ∈ more →
        ∃ operation,
          operationOf after id = some operation ∧
            (state.shared operation).outcome.isSome)
    (hPending :
      ∀ operation < after.nextOperation,
        (state.shared operation).outcome = none →
          ∃ key rest,
            (after.shared operation).reactions =
                .settled key operation :: rest ∧
              ∀ job ∈ rest, ∃ id,
                job = .react id ∧
                  operationOf after id = some operation) :
    Jobs after := by
  have hSame : settledOf after = settledOf state :=
    funext hSettled
  have hKnown :
      ∀ id, Job.react id ∈ after.jobs →
        ∃ operation,
          operationOf after id = some operation ∧
            (state.shared operation).outcome.isSome := by
    intro id hJob
    rw [hJobs] at hJob
    rcases List.mem_append.mp hJob with hOld | hNew
    · rcases hState.known id hOld with ⟨waiter, hWaiter, hSome⟩
      have hThere := hOperation id _ (operationOf_eq hWaiter)
      exact ⟨_, hThere, hSome⟩
    · exact hMore id hNew
  refine ⟨?_, ?_, ?_, ?_⟩
  · intro id hJob
    rcases hKnown id hJob with ⟨operation, hThere, hSome⟩
    rcases Option.map_eq_some_iff.mp hThere with
      ⟨waiter, hWaiter, rfl⟩
    refine ⟨waiter, hWaiter, ?_⟩
    rw [hOutcome]
    exact hSome
  · intro operation hCreated hNone
    rw [hOutcome] at hNone
    exact hPending operation hCreated hNone
  · intro operation
    rw [hSame, hJobs, hOutcome, settledAfter_quiet hQuiet]
    exact hState.told operation
  · rw [hSame, hJobs, ordered_append]
    refine ⟨ordered_congr ?_ hState.ordered, ?_⟩
    · intro id hJob
      rcases hState.known id hJob with ⟨waiter, hWaiter, _⟩
      have hThere := operationOf_eq hWaiter
      rw [hThere]
      exact hOperation id _ hThere
    · refine ordered_quiet hQuiet ?_
      intro id hJob operation hThis
      rcases hMore id hJob with ⟨found, hThere, hSome⟩
      rw [hThere] at hThis
      injection hThis with hThis
      rw [← hThis, hState.told]
      exact hSome

omit [DecidableEq Key] in
theorem Jobs.kept
    (hState : Jobs state)
    (hNext : after.nextOperation = state.nextOperation)
    (hJobs : after.jobs = state.jobs)
    (hOutcome :
      ∀ operation,
        (after.shared operation).outcome =
          (state.shared operation).outcome)
    (hReactions :
      ∀ operation,
        (after.shared operation).reactions =
          (state.shared operation).reactions)
    (hSettled :
      ∀ operation,
        (after.shared operation).settled =
          (state.shared operation).settled)
    (hOperation :
      ∀ id operation,
        operationOf state id = some operation →
          operationOf after id = some operation) :
    Jobs after := by
  refine
    hState.added []
      (hJobs.trans (List.append_nil _).symm) hOutcome hSettled
      hOperation (fun _ _ => List.not_mem_nil)
      (fun _ hNever => absurd hNever List.not_mem_nil) ?_
  intro operation hCreated hNone
  rw [hNext] at hCreated
  rcases hState.pending operation hCreated hNone with
    ⟨key, rest, hBefore, hRest⟩
  refine ⟨key, rest, (hReactions operation).trans hBefore, ?_⟩
  intro job hJob
  rcases hRest job hJob with ⟨id, hReact, hSame⟩
  exact ⟨id, hReact, hOperation id _ hSame⟩

/-
  What is left to show where only jobs run and promises
  change.
-/
theorem Invariant.reshared
    {missing other : Option WaiterId}
    {shared : OperationId → SharedOperation Key Reason Outcome}
    (hState : Invariant missing state)
    (hFresh :
      ∀ operation, state.nextOperation ≤ operation →
        shared operation = state.shared operation)
    (hWaiters :
      ∀ operation,
        (shared operation).waiters =
          (state.shared operation).waiters)
    (hAborted :
      ∀ operation,
        (shared operation).aborted =
          (state.shared operation).aborted)
    (hOutcome :
      ∀ operation outcome,
        (state.shared operation).outcome = some outcome →
          (shared operation).outcome = some outcome)
    (hStarted :
      ∀ operation,
        (shared operation).starts
            + jobs.countP (Job.isStart operation) =
          (state.shared operation).starts
            + state.jobs.countP (Job.isStart operation))
    (hReacting :
      ∀ id waiter,
        state.waiters[id]? = some waiter →
          waiter.finished = false → other ≠ some id →
            ((shared waiter.operation).outcome = none →
              Job.react id ∈
                (shared waiter.operation).reactions) ∧
            ((shared waiter.operation).outcome.isSome →
              Job.react id ∈ jobs))
    (hQueued : Jobs { state with shared, jobs }) :
    Invariant other { state with shared, jobs } where
  fresh operation hNew :=
    (hFresh operation hNew).trans (hState.fresh operation hNew)
  owned := hState.owned
  counted operation :=
    (hWaiters operation).trans (hState.counted operation)
  started operation :=
    (hStarted operation).trans (hState.started operation)
  mapped key operation hEntry :=
    (hState.mapped key operation hEntry).kept rfl rfl
      (hAborted operation)
  cancelled operation hAfter := by
    simp only [hAborted] at hAfter
    exact hState.cancelled operation hAfter
  answered found hFound :=
    (hState.answered found hFound).kept hOutcome
      (fun _ _ hSignal => hSignal)
  reacting := hReacting
  queued := hQueued

----------
-- Leaving
----------

/- An operation after one of its waiters has left. -/
def leave
    (shared : SharedOperation Key Reason Outcome)
    (reason : Option Reason) :
    SharedOperation Key Reason Outcome :=
  { shared with
    waiters := shared.waiters - 1
    aborted :=
      if shared.waiters - 1 = 0 ∧ shared.settled = false then
        some (shared.aborted.getD reason)
      else
        shared.aborted }

def finishedWaiter
    (waiter : Waiter Key Reason Outcome)
    (settlement : Settlement Reason Outcome) :
    Waiter Key Reason Outcome :=
  { waiter with
    listening := false
    finished := true
    settlements := waiter.settlements ++ [settlement] }

/- The state after a waiter has left. -/
def left
    (state : Coalescer Key Reason Outcome)
    (id : WaiterId)
    (waiter : Waiter Key Reason Outcome)
    (settlement : Settlement Reason Outcome) :
    Coalescer Key Reason Outcome :=
  { state with
    operations :=
      if (state.shared waiter.operation).waiters - 1 = 0 ∧
          state.operations.get waiter.key =
            some waiter.operation then
        state.operations.delete waiter.key
      else state.operations
    shared :=
      Function.update state.shared waiter.operation
        (leave (state.shared waiter.operation)
          (state.signals waiter.signal))
    waiters :=
      state.waiters.set id (finishedWaiter waiter settlement) }

variable {settlement : Settlement Reason Outcome}

/- All that `finish` does. -/
theorem finish_eq
    (hWaiter : state.waiters[id]? = some waiter)
    (hOld : waiter.finished = false) :
    state.finish id settlement =
      left state id waiter settlement := by
  have hSelf :
      ∀ shared : SharedOperation Key Reason Outcome,
        Function.update state.shared waiter.operation shared
          waiter.operation = shared :=
    fun shared => Function.update_self _ _ _
  unfold finish left
  rw [hWaiter]
  simp only [hOld, Bool.false_eq_true, ↓reduceIte, release,
    change, hSelf]
  by_cases hLast : (state.shared waiter.operation).waiters - 1 = 0
  · simp only [hLast, ne_eq, not_true_eq_false, ↓reduceIte,
      true_and, forget]
    by_cases hEntry :
        state.operations.get waiter.key = some waiter.operation
    · simp only [hEntry, ↓reduceIte, hSelf]
      cases hSettled :
          (state.shared waiter.operation).settled with
      | false =>
        simp [leave, finishedWaiter, hLast, hSettled,
          abortOperation, change]
      | true =>
        simp [leave, finishedWaiter, hLast, hSettled]
    · simp only [hEntry, ↓reduceIte, hSelf]
      cases hSettled :
          (state.shared waiter.operation).settled with
      | false =>
        simp [leave, finishedWaiter, hLast, hSettled,
          abortOperation, change]
      | true =>
        simp [leave, finishedWaiter, hLast, hSettled]
  · simp [leave, finishedWaiter, hLast]

omit [DecidableEq Key] in
theorem operationOf_set
    {waiter after : Waiter Key Reason Outcome}
    (hWaiter : state.waiters[id]? = some waiter)
    (hSame : after.operation = waiter.operation)
    (other : WaiterId) :
    ((state.waiters.set id after)[other]?).map
        (·.operation) =
      operationOf state other := by
  unfold operationOf
  rw [List.getElem?_set]
  split
  · rename_i hId
    subst hId
    rw [hWaiter]
    split
    · exact congrArg some hSame
    · rename_i hLess
      exact absurd (List.getElem?_eq_some_iff.mp hWaiter).1 hLess
  · rfl

omit [DecidableEq Key] in
theorem getElem_set_cases
    {id other : WaiterId}
    {after found : Waiter Key Reason Outcome}
    (hFound : (waiters.set id after)[other]? = some found) :
    (other = id ∧ found = after) ∨
      (other ≠ id ∧ waiters[other]? = some found) := by
  rw [List.getElem?_set] at hFound
  split at hFound
  · rename_i hSame
    split at hFound
    · injection hFound with hFound
      exact Or.inl ⟨hSame.symm, hFound.symm⟩
    · cases hFound
  · rename_i hNe
    exact Or.inr ⟨Ne.symm hNe, hFound⟩

theorem left_shared
    (hNe : operation ≠ waiter.operation) :
    (left state id waiter settlement).shared operation =
      state.shared operation :=
  Function.update_of_ne hNe _ _

variable {found : Waiter Key Reason Outcome}

theorem mem_left
    (hFound : found ∈ (left state id waiter settlement).waiters) :
    found = finishedWaiter waiter settlement ∨
      found ∈ state.waiters :=
  (List.mem_or_eq_of_mem_set hFound).symm

theorem left_unfinished
    (settlement : Settlement Reason Outcome)
    (hWaiter : state.waiters[id]? = some waiter)
    (hOld : waiter.finished = false)
    (operation : OperationId) :
    unfinished state.waiters operation =
      unfinished (left state id waiter settlement).waiters
          operation
        + if waiter.operation = operation then 1 else 0 :=
  unfinished_set hWaiter hOld rfl operation

variable {missing : Option WaiterId}

theorem left_counted
    (settlement : Settlement Reason Outcome)
    (hState : Invariant missing state)
    (hWaiter : state.waiters[id]? = some waiter)
    (hOld : waiter.finished = false)
    (operation : OperationId) :
    ((left state id waiter settlement).shared
        operation).waiters =
      unfinished (left state id waiter settlement).waiters
        operation := by
  have hBefore := hState.counted operation
  have hStep := left_unfinished settlement hWaiter hOld operation
  by_cases hSame : operation = waiter.operation
  · subst hSame
    rw [if_pos rfl] at hStep
    have hLeft :
        ((left state id waiter settlement).shared
            waiter.operation).waiters =
          (state.shared waiter.operation).waiters - 1 := by
      simp only [left, Function.update_self, leave]
    omega
  · rw [if_neg (Ne.symm hSame)] at hStep
    rw [left_shared hSame]
    omega

/- The last waiter takes the entry with it. -/
theorem left_mapped
    {key : Key}
    (hState : Invariant missing state)
    (hWaiter : state.waiters[id]? = some waiter)
    (hOld : waiter.finished = false)
    (hEntry :
      (left state id waiter settlement).operations.get key =
        some operation) :
    Joinable (left state id waiter settlement) key
      operation := by
  have hMem : waiter ∈ state.waiters :=
    List.mem_of_getElem? hWaiter
  have hBefore :
      state.operations.get key = some operation := by
    simp only [left] at hEntry
    split at hEntry
    · rw [OrderedMap.get_delete] at hEntry
      split at hEntry
      · cases hEntry
      · exact hEntry
    · exact hEntry
  have hJoin := hState.mapped key operation hBefore
  have hKeys :
      ∀ found ∈ (left state id waiter settlement).waiters,
        found.operation = operation → found.key = key := by
    intro found hFound hOperation
    rcases mem_left hFound with rfl | hThere
    · exact hJoin.keys waiter hMem hOperation
    · exact hJoin.keys found hThere hOperation
  have hCounted :=
    left_counted settlement hState hWaiter hOld operation
  by_cases hSame : operation = waiter.operation
  · subst hSame
    have hKey := hJoin.keys waiter hMem rfl
    have hMore :
        (state.shared waiter.operation).waiters - 1 ≠ 0 := by
      intro hLast
      simp only [left, hLast, hKey, hBefore, true_and,
        ↓reduceIte, OrderedMap.get_delete] at hEntry
      cases hEntry
    simp only [left, Function.update_self, leave] at hCounted
    refine ⟨hJoin.created, ?_, ?_, hKeys⟩
    · simp only [left, Function.update_self, leave, hMore,
        false_and, ↓reduceIte]
      exact hJoin.running
    · simp only [left]
      omega
  · refine ⟨hJoin.created, ?_, ?_, hKeys⟩
    · rw [left_shared hSame]
      exact hJoin.running
    · have hAwaited := hJoin.awaited
      rw [left_shared hSame, hState.counted] at hCounted
      omega

theorem left_cancelled
    (hState : Invariant missing state)
    (hWaiter : state.waiters[id]? = some waiter)
    (hOld : waiter.finished = false)
    (hAborted :
      ((left state id waiter settlement).shared
          operation).aborted ≠ none) :
    unfinished (left state id waiter settlement).waiters
      operation = 0 := by
  have hCounted :=
    left_counted settlement hState hWaiter hOld operation
  by_cases hSame : operation = waiter.operation
  · subst hSame
    simp only [left, Function.update_self, leave]
      at hAborted hCounted
    split at hAborted
    · simp only [left]
      omega
    · have hNone := hState.cancelled _ hAborted
      have hPositive := unfinished_pos hWaiter hOld
      omega
  · rw [left_shared hSame] at hAborted hCounted
    have hNone := hState.cancelled operation hAborted
    rw [hState.counted] at hCounted
    omega

theorem left_answered
    (hState : Invariant missing state)
    (hWaiter : state.waiters[id]? = some waiter)
    (hOld : waiter.finished = false)
    (hValid : Valid state waiter settlement)
    (hFound :
      found ∈ (left state id waiter settlement).waiters) :
    Answered (left state id waiter settlement) found := by
  have hOutcome :
      ∀ other,
        ((left state id waiter settlement).shared
            other).outcome =
          (state.shared other).outcome :=
    shared_update SharedOperation.outcome (by rfl)
  rcases mem_left hFound with rfl | hThere
  · have hEmpty :=
      (hState.answered waiter
        (List.mem_of_getElem? hWaiter)).waiting hOld
    refine ⟨rfl, fun hNever => (by cases hNever), ?_⟩
    intro _
    refine ⟨settlement, ?_, ?_⟩
    · change waiter.settlements ++ [settlement] = _
      rw [hEmpty]
      rfl
    · cases settlement with
      | outcome outcome =>
        exact (hOutcome waiter.operation).trans hValid
      | aborted reason => exact hValid
  · exact
      (hState.answered found hThere).kept
        (fun other _ hGiven => (hOutcome other).trans hGiven)
        (fun _ _ hSignal => hSignal)

theorem left_operationOf
    (hWaiter : state.waiters[id]? = some waiter)
    (other : WaiterId) :
    operationOf (left state id waiter settlement) other =
      operationOf state other := by
  have hSame :
      (finishedWaiter waiter settlement).operation =
        waiter.operation := rfl
  exact operationOf_set hWaiter hSame other

/- A waiter that leaves keeps the invariant. -/
theorem finish_invariant
    (hState : Invariant (some id) state)
    (hWaiter : state.waiters[id]? = some waiter)
    (hOld : waiter.finished = false)
    (hValid : Valid state waiter settlement) :
    Invariant none (state.finish id settlement) := by
  have hOwned :=
    hState.owned waiter (List.mem_of_getElem? hWaiter)
  rw [finish_eq hWaiter hOld]
  refine
    ⟨?_, ?_, left_counted settlement hState hWaiter hOld, ?_,
      fun _ _ => left_mapped hState hWaiter hOld,
      fun _ => left_cancelled hState hWaiter hOld,
      fun _ => left_answered hState hWaiter hOld hValid, ?_, ?_⟩
  · intro operation hNew
    have hNe : operation ≠ waiter.operation :=
      Nat.ne_of_gt (Nat.lt_of_lt_of_le hOwned hNew)
    exact (left_shared hNe).trans (hState.fresh _ hNew)
  · intro found hFound
    rcases mem_left hFound with rfl | hThere
    · exact hOwned
    · exact hState.owned found hThere
  · intro operation
    refine Eq.trans ?_ (hState.started operation)
    simp only [left, leave, shared_update SharedOperation.starts]
  · intro other found hFound hOpen _
    rcases getElem_set_cases hFound with
      ⟨_, rfl⟩ | ⟨hNe, hThere⟩
    · cases hOpen
    · have hBefore :=
        hState.reacting other found hThere hOpen (by
          intro hSame
          injection hSame with hSame
          exact hNe hSame.symm)
      simp only [left, leave,
        shared_update SharedOperation.outcome,
        shared_update SharedOperation.reactions]
      exact hBefore
  · exact
      hState.queued.kept rfl rfl
        (shared_update SharedOperation.outcome (by rfl))
        (shared_update SharedOperation.reactions (by rfl))
        (shared_update SharedOperation.settled (by rfl))
        (fun other operation hOperation =>
          (left_operationOf hWaiter other).trans hOperation)

----------
-- Joining
----------

def newWaiter
    (key : Key)
    (operation : OperationId)
    (signal : SignalId) : Waiter Key Reason Outcome :=
  { key := key
    operation := operation
    signal := signal }

variable {key : Key} {signal : SignalId}

/- The state after a call has joined an operation. -/
def joined
    (state : Coalescer Key Reason Outcome)
    (key : Key)
    (operation : OperationId)
    (signal : SignalId) : Coalescer Key Reason Outcome :=
  { state with
    shared :=
      Function.update state.shared operation
        { state.shared operation with
          waiters := (state.shared operation).waiters + 1 }
    waiters :=
      state.waiters ++ [newWaiter key operation signal] }

theorem enter_some
    (hEntry : state.operations.get key = some operation) :
    state.enter key signal =
      joined state key operation signal := by
  unfold enter operationFor
  rw [hEntry]
  rfl

/- The state after a call has created an operation. -/
def created
    (state : Coalescer Key Reason Outcome)
    (key : Key)
    (signal : SignalId) : Coalescer Key Reason Outcome where
  operations := state.operations.set key state.nextOperation
  shared :=
    Function.update state.shared state.nextOperation
      { reactions := [.settled key state.nextOperation]
        waiters := 1 }
  nextOperation := state.nextOperation + 1
  waiters :=
    state.waiters ++ [newWaiter key state.nextOperation signal]
  signals := state.signals
  jobs := state.jobs ++ [.start state.nextOperation]

theorem enter_none
    (hEntry : state.operations.get key = none) :
    state.enter key signal = created state key signal := by
  unfold enter operationFor
  rw [hEntry]
  simp only [change, Function.update_self, Function.update_idem]
  rfl

omit [DecidableEq Key] in
theorem getElem_append_cases
    {id : Nat}
    {last found : Waiter Key Reason Outcome}
    (hFound : (waiters ++ [last])[id]? = some found) :
    (id = waiters.length ∧ found = last) ∨
      waiters[id]? = some found := by
  rw [List.getElem?_append] at hFound
  split at hFound
  · exact Or.inr hFound
  · rename_i hNew
    rcases List.getElem?_eq_some_iff.mp hFound with
      ⟨hLess, hSame⟩
    rw [List.length_singleton] at hLess
    refine Or.inl ⟨by omega, ?_⟩
    rw [← hSame]
    simp

omit [DecidableEq Key] in
/- What is known of the waiters before is still known. -/
theorem operationOf_append
    {last : Waiter Key Reason Outcome}
    (hOperation : operationOf state id = some operation) :
    ((state.waiters ++ [last])[id]?).map (·.operation) =
      some operation := by
  rcases Option.map_eq_some_iff.mp hOperation with
    ⟨waiter, hWaiter, hSame⟩
  rw [List.getElem?_append_left
    (List.getElem?_eq_some_iff.mp hWaiter).1, hWaiter]
  exact congrArg some hSame

omit [DecidableEq Key] in
/- Whoever is new has no settlement yet. -/
theorem answered_append
    {waiters : List (Waiter Key Reason Outcome)}
    (hOld : ∀ found ∈ waiters, Answered state found) :
    ∀ found ∈ waiters ++ [newWaiter key operation signal],
      Answered state found := by
  refine
    List.forall_mem_append.mpr
      ⟨hOld, List.forall_mem_singleton.mpr ?_⟩
  exact ⟨rfl, fun _ => rfl, fun hNever => by cases hNever⟩

----------
-- An Operation That is Waited For
----------

omit [DecidableEq Key] in
theorem joined_unfinished
    (other : OperationId) :
    unfinished (joined state key operation signal).waiters
        other =
      unfinished state.waiters other +
        if operation = other then 1 else 0 :=
  unfinished_append state.waiters _ rfl other

omit [DecidableEq Key] in
theorem joined_aborted
    (other : OperationId) :
    ((joined state key operation signal).shared
        other).aborted =
      (state.shared other).aborted :=
  shared_update SharedOperation.aborted (by rfl) other

omit [DecidableEq Key] in
theorem joined_outcome
    (other : OperationId) :
    ((joined state key operation signal).shared
        other).outcome =
      (state.shared other).outcome :=
  shared_update SharedOperation.outcome (by rfl) other

theorem joined_counted
    (hState : Invariant none state)
    (other : OperationId) :
    ((joined state key operation signal).shared
        other).waiters =
      unfinished (joined state key operation signal).waiters
        other := by
  have hBefore := hState.counted other
  rw [joined_unfinished]
  simp only [joined, Function.update_apply]
  by_cases hSame : other = operation
  · subst hSame
    rw [if_pos rfl, if_pos rfl]
    simp only
    omega
  · rw [if_neg hSame, if_neg (Ne.symm hSame)]
    omega

/- An operation is shared under one key. -/
theorem joined_mapped
    {name : Key} {other : OperationId}
    (hState : Invariant none state)
    (hJoin : Joinable state key operation)
    (hEntry : state.operations.get name = some other) :
    Joinable (joined state key operation signal) name
      other := by
  have hBefore := hState.mapped name other hEntry
  refine ⟨hBefore.created, ?_, ?_, ?_⟩
  · rw [joined_aborted]
    exact hBefore.running
  · rw [joined_unfinished]
    exact Nat.lt_add_right _ hBefore.awaited
  · refine
      List.forall_mem_append.mpr
        ⟨hBefore.keys, List.forall_mem_singleton.mpr ?_⟩
    intro hSame
    rcases exists_unfinished hBefore.awaited with
      ⟨waiter, hMem, hOperation, _⟩
    rw [← hBefore.keys waiter hMem hOperation]
    exact
      (hJoin.keys waiter hMem (hOperation.trans hSame.symm)).symm

theorem joined_cancelled
    {other : OperationId}
    (hState : Invariant none state)
    (hJoin : Joinable state key operation)
    (hAborted :
      ((joined state key operation signal).shared
          other).aborted ≠ none) :
    unfinished (joined state key operation signal).waiters
      other = 0 := by
  rw [joined_aborted] at hAborted
  have hNe : operation ≠ other := by
    rintro rfl
    exact hAborted hJoin.running
  rw [joined_unfinished, if_neg hNe]
  exact hState.cancelled other hAborted

theorem joined_reacting
    (hState : Invariant none state)
    (hFound :
      (joined state key operation signal).waiters[id]? =
        some found)
    (hOpen : found.finished = false)
    (hMissing : some state.waiters.length ≠ some id) :
    (((joined state key operation signal).shared
          found.operation).outcome = none →
        Job.react id ∈
          ((joined state key operation signal).shared
            found.operation).reactions) ∧
      (((joined state key operation signal).shared
          found.operation).outcome.isSome →
        Job.react id ∈ state.jobs) := by
  rcases getElem_append_cases hFound with ⟨rfl, _⟩ | hOld
  · exact absurd rfl hMissing
  · rw [joined_outcome,
      show ((joined state key operation signal).shared
            found.operation).reactions =
          (state.shared found.operation).reactions from
        shared_update SharedOperation.reactions (by rfl) _]
    exact hState.reacting id found hOld hOpen (by simp)

/- Joining an operation that is waited for. -/
theorem enter_some_invariant
    (hState : Invariant none state)
    (hEntry : state.operations.get key = some operation) :
    Invariant (some state.waiters.length)
      (state.enter key signal) := by
  have hJoin := hState.mapped key operation hEntry
  rw [enter_some hEntry]
  refine
    ⟨?_, ?_, joined_counted hState, ?_,
      fun _ _ => joined_mapped hState hJoin,
      fun _ => joined_cancelled hState hJoin,
      answered_append ?_, fun _ _ => joined_reacting hState, ?_⟩
  · intro other hNew
    have hNe : other ≠ operation :=
      Nat.ne_of_gt (Nat.lt_of_lt_of_le hJoin.created hNew)
    exact
      (Function.update_of_ne hNe _ _).trans
        (hState.fresh other hNew)
  · exact
      List.forall_mem_append.mpr
        ⟨hState.owned,
          List.forall_mem_singleton.mpr hJoin.created⟩
  · intro other
    refine Eq.trans ?_ (hState.started other)
    simp only [joined, shared_update SharedOperation.starts]
  · intro found hFound
    exact
      (hState.answered found hFound).kept
        (fun other _ hGiven => (joined_outcome other).trans hGiven)
        (fun _ _ hSignal => hSignal)
  · exact
      hState.queued.kept rfl rfl joined_outcome
        (shared_update SharedOperation.reactions (by rfl))
        (shared_update SharedOperation.settled (by rfl))
        (fun _ _ => operationOf_append)

----------
-- An Operation That is Created
----------

theorem created_self :
    (created state key signal).shared state.nextOperation =
      { reactions := [.settled key state.nextOperation]
        waiters := 1 } :=
  Function.update_self _ _ _

theorem created_shared
    (hNe : operation ≠ state.nextOperation) :
    (created state key signal).shared operation =
      state.shared operation :=
  Function.update_of_ne hNe _ _

/- What a created operation has as one that is fresh. -/
theorem created_read
    {α : Type}
    (hState : Invariant none state)
    (read : SharedOperation Key Reason Outcome → α)
    (hKept :
      read
          { reactions := [.settled key state.nextOperation]
            waiters := 1 } =
        read {})
    (operation : OperationId) :
    read ((created state key signal).shared operation) =
      read (state.shared operation) := by
  refine shared_update read ?_ operation
  rw [hState.fresh _ (Nat.le_refl _)]
  exact hKept

theorem created_unfinished
    (operation : OperationId) :
    unfinished (created state key signal).waiters operation =
      unfinished state.waiters operation +
        if state.nextOperation = operation then 1 else 0 :=
  unfinished_append state.waiters _ rfl operation

theorem Invariant.unfinished_fresh
    (hState : Invariant none state) :
    unfinished state.waiters state.nextOperation = 0 := by
  have hCounted := hState.counted state.nextOperation
  rw [hState.fresh _ (Nat.le_refl _)] at hCounted
  exact Int.ofNat_eq_zero.mp hCounted.symm

theorem created_counted
    (hState : Invariant none state)
    (operation : OperationId) :
    ((created state key signal).shared operation).waiters =
      unfinished (created state key signal).waiters
        operation := by
  rw [created_unfinished]
  by_cases hSame : operation = state.nextOperation
  · subst hSame
    rw [created_self, hState.unfinished_fresh, if_pos rfl]
    rfl
  · rw [created_shared hSame, if_neg (Ne.symm hSame)]
    exact hState.counted operation

theorem created_started
    (hState : Invariant none state)
    (operation : OperationId) :
    ((created state key signal).shared operation).starts
        + (created state key signal).jobs.countP
          (Job.isStart operation) =
      if operation < state.nextOperation + 1 then 1 else 0 := by
  have hBefore := hState.started operation
  rw [created_read hState SharedOperation.starts rfl]
  simp only [created, List.countP_append, List.countP_singleton,
    Job.isStart, beq_iff_eq]
  by_cases hSame : operation = state.nextOperation
  · subst hSame
    rw [if_neg (Nat.lt_irrefl _)] at hBefore
    rw [if_pos rfl, if_pos (Nat.lt_succ_self _)]
    omega
  · have hLess :
        operation < state.nextOperation + 1 ↔
          operation < state.nextOperation :=
      Nat.lt_succ_iff_lt_or_eq.trans (or_iff_left hSame)
    rw [if_neg (Ne.symm hSame)]
    simp only [hLess]
    exact hBefore

theorem created_mapped
    {name : Key}
    (hState : Invariant none state)
    (hEntry :
      (created state key signal).operations.get name =
        some operation) :
    Joinable (created state key signal) name operation := by
  simp only [created, OrderedMap.get_set] at hEntry
  split at hEntry
  · rename_i hName
    injection hEntry with hSame
    subst hSame
    refine ⟨Nat.lt_succ_self _, ?_, ?_, ?_⟩
    · rw [created_self]
    · rw [created_unfinished, if_pos rfl]
      exact Nat.succ_pos _
    · refine
        List.forall_mem_append.mpr
          ⟨?_, List.forall_mem_singleton.mpr fun _ => hName.symm⟩
      intro found hFound hOperation
      exact
        absurd hOperation
          (Nat.ne_of_lt (hState.owned found hFound))
  · have hBefore := hState.mapped name operation hEntry
    have hNe : operation ≠ state.nextOperation :=
      Nat.ne_of_lt hBefore.created
    refine ⟨Nat.lt_succ_of_lt hBefore.created, ?_, ?_, ?_⟩
    · rw [created_shared hNe]
      exact hBefore.running
    · rw [created_unfinished]
      exact Nat.lt_add_right _ hBefore.awaited
    · exact
        List.forall_mem_append.mpr
          ⟨hBefore.keys,
            List.forall_mem_singleton.mpr fun hOperation =>
              absurd hOperation.symm hNe⟩

theorem created_cancelled
    (hState : Invariant none state)
    (hAborted :
      ((created state key signal).shared
          operation).aborted ≠ none) :
    unfinished (created state key signal).waiters
      operation = 0 := by
  rw [created_read hState SharedOperation.aborted rfl] at hAborted
  have hNe : state.nextOperation ≠ operation := by
    rintro rfl
    rw [hState.fresh _ (Nat.le_refl _)] at hAborted
    exact hAborted rfl
  rw [created_unfinished, if_neg hNe]
  exact hState.cancelled operation hAborted

theorem created_reacting
    (hState : Invariant none state)
    (hFound :
      (created state key signal).waiters[id]? = some found)
    (hOpen : found.finished = false)
    (hMissing : some state.waiters.length ≠ some id) :
    (((created state key signal).shared
          found.operation).outcome = none →
        Job.react id ∈
          ((created state key signal).shared
            found.operation).reactions) ∧
      (((created state key signal).shared
          found.operation).outcome.isSome →
        Job.react id ∈ (created state key signal).jobs) := by
  rcases getElem_append_cases hFound with ⟨rfl, _⟩ | hOld
  · exact absurd rfl hMissing
  · have hOwned :=
      hState.owned found (List.mem_of_getElem? hOld)
    have hBefore := hState.reacting id found hOld hOpen (by simp)
    rw [created_shared (Nat.ne_of_lt hOwned)]
    exact
      ⟨hBefore.1,
        fun hSome => List.mem_append_left _ (hBefore.2 hSome)⟩

/- The promise of a new operation tells the operation. -/
theorem created_pending
    (hState : Invariant none state)
    (hCreated : operation < state.nextOperation + 1)
    (hNone : (state.shared operation).outcome = none) :
    ∃ name rest,
      ((created state key signal).shared
            operation).reactions =
          .settled name operation :: rest ∧
        ∀ job ∈ rest, ∃ id,
          job = .react id ∧
            operationOf (created state key signal) id =
              some operation := by
  by_cases hSame : operation = state.nextOperation
  · subst hSame
    rw [created_self]
    exact
      ⟨key, [], rfl,
        fun _ hNever => absurd hNever List.not_mem_nil⟩
  · have hLess : operation < state.nextOperation :=
      Nat.lt_of_le_of_ne (Nat.le_of_lt_succ hCreated) hSame
    rw [created_shared hSame]
    rcases hState.queued.pending operation hLess hNone with
      ⟨name, rest, hReactions, hRest⟩
    refine ⟨name, rest, hReactions, ?_⟩
    intro job hJob
    rcases hRest job hJob with ⟨id, hReact, hOperation⟩
    exact ⟨id, hReact, operationOf_append hOperation⟩

/- Joining an operation that is created. -/
theorem enter_none_invariant
    (hState : Invariant none state)
    (hEntry : state.operations.get key = none) :
    Invariant (some state.waiters.length)
      (state.enter key signal) := by
  rw [enter_none hEntry]
  refine
    ⟨?_, ?_, created_counted hState, created_started hState,
      fun _ _ => created_mapped hState,
      fun _ => created_cancelled hState, answered_append ?_,
      fun _ _ => created_reacting hState, ?_⟩
  · intro operation hNew
    exact
      (created_shared (Nat.ne_of_gt hNew)).trans
        (hState.fresh operation (Nat.le_of_succ_le hNew))
  · refine
      List.forall_mem_append.mpr
        ⟨?_, List.forall_mem_singleton.mpr (Nat.lt_succ_self _)⟩
    intro found hFound
    exact Nat.lt_succ_of_lt (hState.owned found hFound)
  · intro found hFound
    refine
      (hState.answered found hFound).kept ?_
        (fun _ _ hSignal => hSignal)
    intro operation _ hGiven
    rw [created_read hState SharedOperation.outcome rfl]
    exact hGiven
  · refine
      hState.queued.added [.start state.nextOperation] rfl
        (created_read hState SharedOperation.outcome rfl)
        (created_read hState SharedOperation.settled rfl)
        (fun _ _ => operationOf_append) ?_ ?_
        (fun _ => created_pending hState)
    · intro name operation hJob
      cases List.mem_singleton.mp hJob
    · intro id hJob
      cases List.mem_singleton.mp hJob

theorem enter_invariant
    (hState : Invariant none state)
    (key : Key)
    (signal : SignalId) :
    Invariant (some state.waiters.length)
      (state.enter key signal) := by
  cases hEntry : state.operations.get key with
  | none => exact enter_none_invariant hState hEntry
  | some operation => exact enter_some_invariant hState hEntry

/- Who enters, and what enters without. -/
theorem enter_spec
    (state : Coalescer Key Reason Outcome)
    (key : Key)
    (signal : SignalId) :
    (state.enter key signal).waiters =
        state.waiters
          ++ [newWaiter key (state.operationFor key).2
              signal] ∧
      (state.enter key signal).signals = state.signals := by
  cases hEntry : state.operations.get key with
  | none =>
    rw [enter_none hEntry]
    unfold operationFor
    rw [hEntry]
    exact ⟨rfl, rfl⟩
  | some operation =>
    rw [enter_some hEntry]
    unfold operationFor
    rw [hEntry]
    exact ⟨rfl, rfl⟩

theorem enter_last
    (state : Coalescer Key Reason Outcome)
    (key : Key)
    (signal : SignalId) :
    (state.enter key signal).waiters[state.waiters.length]? =
      some
        (newWaiter key (state.operationFor key).2 signal) := by
  rw [(enter_spec state key signal).1]
  simp

----------
-- Being Told
----------

variable {missing : Option WaiterId}

/- Only the waiter itself may have been missing. -/
theorem Invariant.reacting_other
    {other : WaiterId}
    (hState : Invariant (some id) state)
    (hFound : state.waiters[other]? = some found)
    (hOpen : found.finished = false)
    (hNe : id ≠ other) :
    ((state.shared found.operation).outcome = none →
        Job.react other ∈
          (state.shared found.operation).reactions) ∧
      ((state.shared found.operation).outcome.isSome →
        Job.react other ∈ state.jobs) := by
  refine hState.reacting other found hFound hOpen ?_
  intro hId
  injection hId with hId
  exact hNe hId

/- The promise has an outcome: the waiter is told next. -/
theorem told_invariant
    (hState : Invariant (some id) state)
    (hWaiter : state.waiters[id]? = some waiter)
    (hSome : (state.shared waiter.operation).outcome.isSome) :
    Invariant none
      { state with jobs := state.jobs ++ [.react id] } := by
  refine
    hState.reshared (fun _ _ => rfl) (fun _ => rfl)
      (fun _ => rfl) (fun _ _ hOutcome => hOutcome) ?_ ?_ ?_
  · intro other
    simp only [List.countP_append, List.countP_singleton,
      Job.isStart, Bool.false_eq_true, ↓reduceIte,
      Nat.add_zero]
  · intro other found hFound hOpen _
    by_cases hSame : id = other
    · subst hSame
      rw [hWaiter] at hFound
      injection hFound with hFound
      subst hFound
      refine ⟨fun hNone => ?_, fun _ => ?_⟩
      · rw [hNone] at hSome
        cases hSome
      · exact List.mem_append_right _ List.mem_cons_self
    · have hBefore := hState.reacting_other hFound hOpen hSame
      exact
        ⟨hBefore.1,
          fun hDone =>
            List.mem_append_left _ (hBefore.2 hDone)⟩
  · refine
      hState.queued.added [.react id] rfl (fun _ => rfl)
        (fun _ => rfl) (fun _ _ hOperation => hOperation) ?_ ?_
        hState.queued.pending
    · intro key operation hJob
      cases List.mem_singleton.mp hJob
    · intro other hJob
      injection List.mem_singleton.mp hJob with hSame
      subst hSame
      exact ⟨waiter.operation, operationOf_eq hWaiter, hSome⟩

/- The operation after a waiter has listened to its promise. -/
def listens
    (shared : SharedOperation Key Reason Outcome)
    (id : WaiterId) : SharedOperation Key Reason Outcome :=
  { shared with reactions := shared.reactions ++ [.react id] }

omit [DecidableEq Key] in
theorem listens_reactions
    (state : Coalescer Key Reason Outcome)
    (id : WaiterId)
    (listened operation : OperationId) :
    ∃ more,
      (Function.update state.shared listened
            (listens (state.shared listened) id)
            operation).reactions =
          (state.shared operation).reactions ++ more ∧
        ∀ job ∈ more,
          job = .react id ∧ operation = listened := by
  rw [Function.update_apply]
  split
  · rename_i hSame
    subst hSame
    exact
      ⟨[.react id], rfl, List.forall_mem_singleton.mpr ⟨rfl, rfl⟩⟩
  · exact
      ⟨[], (List.append_nil _).symm,
        fun _ hNever => absurd hNever List.not_mem_nil⟩

/- The promise waits: so does the waiter. -/
theorem listens_invariant
    (hState : Invariant (some id) state)
    (hWaiter : state.waiters[id]? = some waiter)
    (hNone : (state.shared waiter.operation).outcome = none) :
    Invariant none
      { state with
        shared :=
          Function.update state.shared waiter.operation
            (listens (state.shared waiter.operation) id) } := by
  have hOwned :=
    hState.owned waiter (List.mem_of_getElem? hWaiter)
  have hOutcome :
      ∀ other,
        (Function.update state.shared waiter.operation
            (listens (state.shared waiter.operation) id)
            other).outcome =
          (state.shared other).outcome :=
    shared_update SharedOperation.outcome (by rfl)
  have hReactions := listens_reactions state id waiter.operation
  refine
    hState.reshared ?_
      (shared_update SharedOperation.waiters (by rfl))
      (shared_update SharedOperation.aborted (by rfl))
      (fun other _ hGiven => (hOutcome other).trans hGiven)
      ?_ ?_ ?_
  · intro other hNew
    exact
      Function.update_of_ne
        (Nat.ne_of_gt (Nat.lt_of_lt_of_le hOwned hNew)) _ _
  · intro other
    simp only [listens, shared_update SharedOperation.starts]
  · intro other found hFound hOpen _
    rw [hOutcome]
    by_cases hSame : id = other
    · subst hSame
      rw [hWaiter] at hFound
      injection hFound with hFound
      subst hFound
      refine ⟨fun _ => ?_, fun hDone => ?_⟩
      · rw [Function.update_self]
        exact List.mem_append_right _ List.mem_cons_self
      · rw [hNone] at hDone
        cases hDone
    · have hBefore := hState.reacting_other hFound hOpen hSame
      refine ⟨fun hWaits => ?_, hBefore.2⟩
      rcases hReactions found.operation with ⟨more, hMore, _⟩
      rw [hMore]
      exact List.mem_append_left _ (hBefore.1 hWaits)
  · refine
      hState.queued.added [] (List.append_nil _).symm hOutcome
        (shared_update SharedOperation.settled (by rfl))
        (fun _ _ hOperation => hOperation)
        (fun _ _ => List.not_mem_nil)
        (fun _ hNever => absurd hNever List.not_mem_nil) ?_
    intro other hCreated hWaits
    rcases hState.queued.pending other hCreated hWaits with
      ⟨key, rest, hBefore, hRest⟩
    rcases hReactions other with ⟨more, hMore, hNew⟩
    refine ⟨key, rest ++ more, ?_, ?_⟩
    · rw [hMore, hBefore]
      rfl
    · refine List.forall_mem_append.mpr ⟨hRest, ?_⟩
      intro job hJob
      rcases hNew job hJob with ⟨hReact, rfl⟩
      exact ⟨id, hReact, operationOf_eq hWaiter⟩

/- The waiter is told when the operation has an outcome. -/
theorem whenSettled_invariant
    (hState : Invariant (some id) state)
    (hWaiter : state.waiters[id]? = some waiter) :
    Invariant none
      (state.whenSettled waiter.operation (.react id)) := by
  unfold whenSettled
  split
  · rename_i hSome
    exact told_invariant hState hWaiter hSome
  · rename_i hNone
    exact
      listens_invariant hState hWaiter
        (Option.not_isSome_iff_eq_none.mp hNone)

theorem run_invariant
    (hState : Invariant none state)
    (key : Key)
    (signal : SignalId) :
    Invariant none (state.run key signal) := by
  have hEntered := enter_invariant hState key signal
  have hLast := enter_last state key signal
  have hSignals := (enter_spec state key signal).2
  unfold Coalescer.run
  simp only
  split
  · rename_i reason hAborted
    refine finish_invariant hEntered hLast rfl ⟨rfl, ?_⟩
    exact hAborted
  · exact whenSettled_invariant hEntered hLast

end Safety

end Coalescing

end ArktsServer
