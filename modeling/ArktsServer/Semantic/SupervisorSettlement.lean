import ArktsServer.Semantic.SupervisorAccounting

/-
  The end of the supervisor: once it has stopped, nothing is
  sent any more, and after the termination or the deadline
  no promise is left open.

  Key definitions include:
    * `Semantic.Supervisor.StopInv`
    * `Semantic.Supervisor.AllSettled`
    * `Semantic.Supervisor.Accounted`

  Correctness is proven by:
    * `Semantic.Supervisor.stopInv_run`
    * `Semantic.Supervisor.accounted_run`
-/

namespace ArktsServer

namespace Semantic

open Transition

----------
-- Silence
----------

def Observation.isSent : Observation → Bool
| .sent _ _ => true
| _ => false

/- Nothing is sent behind a stop. -/
def Silent
    (log : List Observation) :
    Prop :=
  log.Pairwise fun earlier later =>
    earlier = .stopped → later.isSent = false

theorem Silent.append_quiet
    {log more : List Observation}
    (hLog : Silent log)
    (hQuiet :
      ∀ observation ∈ more, observation.isSent = false) :
    Silent (log ++ more) := by
  unfold Silent at *
  rw [List.pairwise_append]
  refine ⟨hLog, ?_, ?_⟩
  · apply List.pairwise_of_forall_mem_list
    intro _ _ later hLater _
    exact hQuiet later hLater
  · intro _ _ later hLater _
    exact hQuiet later hLater

/- A log with no stop in it is silent. -/
theorem silent_of_not_stopped
    {log : List Observation}
    (hLive : .stopped ∉ log) :
    Silent log := by
  apply List.pairwise_of_forall_mem_list
  intro earlier hEarlier _ _ hStopped
  subst hStopped
  exact absurd hEarlier hLive

namespace Supervisor

variable {options : SupervisorOptions}
variable {message : Option WorkerMessage}
variable {supervisor first second : Supervisor}

theorem stopped_not_mem_rejections
    (code : SemanticWorkerErrorCode)
    (promises : List Nat) :
    .stopped ∉ rejections code promises :=
  fun hMem =>
    forall_rejections
      (P := fun observation => observation ≠ .stopped)
      (fun _ _ hNever => by cases hNever) code promises _ hMem
      rfl

----------
-- Invariant
----------

structure StopInv
    (supervisor : Supervisor) : Prop where
  queues :
    supervisor.disposed = true →
    supervisor.pendingMutations = []
      ∧ supervisor.pendingRequests.records = []
  failure :
    supervisor.failure.isSome = true →
    supervisor.disposed = true
  stopped :
    supervisor.disposed = true ↔ .stopped ∈ supervisor.log
  silent : Silent supervisor.log
  lanes :
    supervisor.disposed = true →
    supervisor.lanesEmpty = true
      ∨ supervisor.failureWaits = true
      ∨ supervisor.disposeWaits = true
  failed :
    supervisor.failure.isSome = true →
    supervisor.lanesEmpty = true
      ∨ supervisor.failureWaits = true
  failureWaits :
    supervisor.failureWaits = true →
    supervisor.failure.isSome = true
      ∧ supervisor.terminating = true
      ∧ supervisor.deadlineStarted = true
  disposeWaits :
    supervisor.disposeWaits = true →
    supervisor.disposed = true
      ∧ supervisor.deadlineStarted = true

/- A supervisor that has not stopped, with no waits. -/
theorem stopInv_of_live
    (hLive : supervisor.disposed = false)
    (hFailure : supervisor.failure = none)
    (hStopped : .stopped ∉ supervisor.log)
    (hFailureWaits : supervisor.failureWaits = false)
    (hDisposeWaits : supervisor.disposeWaits = false) :
    supervisor.StopInv := by
  constructor
  · intro hDisposed
    rw [hLive] at hDisposed
    cases hDisposed
  · intro hSome
    rw [hFailure] at hSome
    cases hSome
  · rw [hLive]
    constructor
    · intro hDisposed
      cases hDisposed
    · intro hMem
      exact absurd hMem hStopped
  · exact silent_of_not_stopped hStopped
  · intro hDisposed
    rw [hLive] at hDisposed
    cases hDisposed
  · intro hSome
    rw [hFailure] at hSome
    cases hSome
  · intro hWaits
    rw [hFailureWaits] at hWaits
    cases hWaits
  · intro hWaits
    rw [hDisposeWaits] at hWaits
    cases hWaits

/- What a live supervisor looks like. -/
theorem StopInv.live
    (hInv : supervisor.StopInv)
    (hLive : supervisor.disposed = false) :
    supervisor.failure = none
      ∧ .stopped ∉ supervisor.log
      ∧ supervisor.failureWaits = false
      ∧ supervisor.disposeWaits = false := by
  refine ⟨?_, ?_, ?_, ?_⟩
  · cases hFailure : supervisor.failure with
    | none => rfl
    | some failure =>
      have hDisposed := hInv.failure (by rw [hFailure]; rfl)
      rw [hLive] at hDisposed
      cases hDisposed
  · intro hMem
    have hDisposed := hInv.stopped.mpr hMem
    rw [hLive] at hDisposed
    cases hDisposed
  · cases hWaits : supervisor.failureWaits with
    | false => rfl
    | true =>
      have hDisposed := hInv.failure (hInv.failureWaits hWaits).1
      rw [hLive] at hDisposed
      cases hDisposed
  · cases hWaits : supervisor.disposeWaits with
    | false => rfl
    | true =>
      have hDisposed := (hInv.disposeWaits hWaits).1
      rw [hLive] at hDisposed
      cases hDisposed

/- A move of a live supervisor that does not stop it. -/
theorem StopInv.of_live
    (hInv : first.StopInv)
    (hLive : first.disposed = false)
    {more : List Observation}
    (hLog : second.log = first.log ++ more)
    (hMore : .stopped ∉ more)
    (hDisposed : second.disposed = first.disposed)
    (hFailure : second.failure = first.failure)
    (hFailureWaits : second.failureWaits = first.failureWaits)
    (hDisposeWaits :
      second.disposeWaits = first.disposeWaits) :
    second.StopInv := by
  obtain ⟨hNone, hStopped, hNoFailure, hNoDispose⟩ :=
    hInv.live hLive
  apply stopInv_of_live
  · rw [hDisposed, hLive]
  · rw [hFailure, hNone]
  · rw [hLog, List.mem_append, not_or]
    exact ⟨hStopped, hMore⟩
  · rw [hFailureWaits, hNoFailure]
  · rw [hDisposeWaits, hNoDispose]

/-
  A move that keeps the flags and the queues, frees lanes at
  most, and logs neither a stop nor a command.
-/
theorem StopInv.of_quiet
    (hInv : first.StopInv)
    {more : List Observation}
    (hLog : second.log = first.log ++ more)
    (hMore : .stopped ∉ more)
    (hQuiet :
      ∀ observation ∈ more, observation.isSent = false)
    (hQueues :
      first.pendingMutations = []
          ∧ first.pendingRequests.records = [] →
        second.pendingMutations = []
          ∧ second.pendingRequests.records = [])
    (hLanes :
      first.lanesEmpty = true → second.lanesEmpty = true)
    (hFlags :
      second.disposed = first.disposed
        ∧ second.failure = first.failure
        ∧ second.failureWaits = first.failureWaits
        ∧ second.disposeWaits = first.disposeWaits
        ∧ second.terminating = first.terminating
        ∧ second.deadlineStarted = first.deadlineStarted) :
    second.StopInv := by
  obtain ⟨hDisposed, hFailure, hFailureWaits, hDisposeWaits,
    hTerminating, hDeadline⟩ := hFlags
  constructor
  · rw [hDisposed]
    intro hStop
    exact hQueues (hInv.queues hStop)
  · rw [hFailure, hDisposed]
    exact hInv.failure
  · rw [hDisposed, hLog, List.mem_append, hInv.stopped]
    constructor
    · exact Or.inl
    · intro hMem
      rcases hMem with hOld | hNew
      · exact hOld
      · exact absurd hNew hMore
  · rw [hLog]
    exact hInv.silent.append_quiet hQuiet
  · rw [hDisposed, hFailureWaits, hDisposeWaits]
    intro hStop
    rcases hInv.lanes hStop with hEmpty | hWaits
    · exact Or.inl (hLanes hEmpty)
    · exact Or.inr hWaits
  · rw [hFailure, hFailureWaits]
    intro hSome
    rcases hInv.failed hSome with hEmpty | hWaits
    · exact Or.inl (hLanes hEmpty)
    · exact Or.inr hWaits
  · rw [hFailureWaits, hFailure, hTerminating, hDeadline]
    exact hInv.failureWaits
  · rw [hDisposeWaits, hDisposed, hDeadline]
    exact hInv.disposeWaits

----------
-- Stops
----------

theorem abandonQueues_log
    (supervisor : Supervisor)
    (error : SemanticWorkerErrorCode) :
    (supervisor.abandonQueues error).log
      = supervisor.log
        ++ (.stopped
          :: rejections error
            (supervisor.pendingMutationPromises
              ++ supervisor.pendingRequestPromises)) := rfl

theorem abandonQueues_silent
    (hSilent : Silent supervisor.log)
    (error : SemanticWorkerErrorCode) :
    Silent (supervisor.abandonQueues error).log := by
  rw [abandonQueues_log]
  apply hSilent.append_quiet
  intro observation hMem
  rcases List.mem_cons.mp hMem with hHead | hTail
  · rw [hHead]
    rfl
  · exact
      forall_rejections (P := (·.isSent = false))
        (fun _ _ => rfl) _ _ _ hTail

theorem abandonQueues_stopped
    (supervisor : Supervisor)
    (error : SemanticWorkerErrorCode) :
    .stopped ∈ (supervisor.abandonQueues error).log := by
  rw [abandonQueues_log]
  exact List.mem_append_right _ List.mem_cons_self

/- Nothing is sent, and nothing stops. -/
theorem activeFailure_quiet
    (supervisor : Supervisor)
    (failure : SemanticWorkerErrorCode) :
    (∀ observation ∈ supervisor.activeFailure failure,
        observation.isSent = false)
      ∧ .stopped ∉ supervisor.activeFailure failure :=
  ⟨forall_activeFailure (fun _ _ => rfl) _ _,
    fun hMem =>
      forall_activeFailure
        (P := fun observation => observation ≠ .stopped)
        (fun _ _ hNever => by cases hNever) _ _ _ hMem rfl⟩

theorem lanesFailure_quiet
    (supervisor : Supervisor)
    (failure : SemanticWorkerErrorCode) :
    (∀ observation ∈ supervisor.activeFailure failure
          ++ supervisor.detachedFailure failure,
        observation.isSent = false)
      ∧ .stopped
        ∉ supervisor.activeFailure failure
          ++ supervisor.detachedFailure failure :=
  ⟨forall_lanesFailure (fun _ _ => rfl) _ _,
    fun hMem =>
      forall_lanesFailure
        (P := fun observation => observation ≠ .stopped)
        (fun _ _ hNever => by cases hNever) _ _ _ hMem rfl⟩

/- The lanes are settled and a continuation has run. -/
theorem StopInv.settleLanes
    (hInv : supervisor.StopInv)
    (failure : SemanticWorkerErrorCode) :
    (supervisor.settleLanes failure).StopInv := by
  obtain ⟨hQuiet, hStopped⟩ :=
    supervisor.lanesFailure_quiet failure
  rw [settleLanes_eq]
  refine hInv.of_quiet rfl hStopped hQuiet id ?_ ?_
  · intro _
    rfl
  · exact ⟨rfl, rfl, rfl, rfl, rfl, rfl⟩

/- The invariant with one continuation less. -/
theorem StopInv.settledFailure
    (hInv : supervisor.StopInv)
    (failure : SemanticWorkerErrorCode) :
    ({ supervisor with
        failureWaits := false }.settleLanes
      failure).StopInv := by
  have hSettled := hInv.settleLanes failure
  rw [settleLanes_eq] at hSettled ⊢
  constructor
  · exact hSettled.queues
  · exact hSettled.failure
  · exact hSettled.stopped
  · exact hSettled.silent
  · intro _
    exact Or.inl rfl
  · intro _
    exact Or.inl rfl
  · intro hWaits
    cases hWaits
  · exact hSettled.disposeWaits

theorem StopInv.settledDispose
    (hInv : supervisor.StopInv)
    (failure : SemanticWorkerErrorCode) :
    ({ supervisor with
        disposeWaits := false
        terminating := true }.settleLanes
      failure).StopInv := by
  have hSettled := hInv.settleLanes failure
  rw [settleLanes_eq] at hSettled ⊢
  constructor
  · exact hSettled.queues
  · exact hSettled.failure
  · exact hSettled.stopped
  · exact hSettled.silent
  · intro _
    exact Or.inl rfl
  · intro _
    exact Or.inl rfl
  · intro hWaits
    obtain ⟨hFailure, _, hDeadline⟩ :=
      hSettled.failureWaits hWaits
    exact ⟨hFailure, rfl, hDeadline⟩
  · intro hWaits
    cases hWaits

/- A failure: the continuation waits for the termination. -/
theorem StopInv.shutDown
    (hSilent : Silent supervisor.log)
    (failure : SemanticWorkerErrorCode) :
    ({ supervisor.shutDown failure with
        failureWaits := true }).StopInv := by
  constructor
  · intro _
    exact ⟨rfl, rfl⟩
  · intro _
    rfl
  · exact ⟨fun _ => abandonQueues_stopped supervisor failure,
      fun _ => rfl⟩
  · exact abandonQueues_silent hSilent failure
  · intro _
    exact Or.inr (Or.inl rfl)
  · intro _
    exact Or.inr rfl
  · intro _
    exact ⟨rfl, rfl, rfl⟩
  · intro _
    exact ⟨rfl, rfl⟩

theorem StopInv.settleActiveFailure
    (hInv : supervisor.StopInv)
    (failure : SemanticWorkerErrorCode) :
    (supervisor.settleActiveFailure failure).StopInv := by
  obtain ⟨hQuiet, hStopped⟩ :=
    supervisor.activeFailure_quiet failure
  rw [settleActiveFailure_eq]
  refine hInv.of_quiet rfl hStopped hQuiet id ?_ ?_
  · intro hEmpty
    simp only [lanesEmpty, Bool.and_eq_true] at hEmpty ⊢
    exact ⟨rfl, hEmpty.2⟩
  · exact ⟨rfl, rfl, rfl, rfl, rfl, rfl⟩

theorem StopInv.fail
    (hInv : supervisor.StopInv)
    (endpointTerminal : Bool) :
    (supervisor.fail endpointTerminal).StopInv := by
  cases hFailure : supervisor.failure with
  | some failure =>
    unfold Supervisor.fail
    rw [hFailure]
    dsimp only
    split
    · exact hInv.settleActiveFailure failure
    · exact hInv
  | none =>
    rw [fail_eq hFailure]
    have hDown := StopInv.shutDown hInv.silent .workerUnavailable
    split
    · have hSettled := hDown.settledFailure .workerUnavailable
      rw [settleLanes_eq] at hSettled ⊢
      have hNoWait : supervisor.failureWaits = false := by
        cases hWaits : supervisor.failureWaits with
        | false => rfl
        | true =>
          have hSome := (hInv.failureWaits hWaits).1
          rw [hFailure] at hSome
          cases hSome
      refine
        { queues := hSettled.queues
          failure := hSettled.failure
          stopped := hSettled.stopped
          silent := hSettled.silent
          lanes := fun _ => Or.inl rfl
          failed := fun _ => Or.inl rfl
          failureWaits := ?_
          disposeWaits := hSettled.disposeWaits }
      intro hWaits
      exact ⟨rfl, rfl, rfl⟩
    · exact hDown

theorem StopInv.dispose
    (hInv : supervisor.StopInv) :
    supervisor.dispose.StopInv := by
  unfold Supervisor.dispose
  split
  · exact hInv
  · dsimp only
    have hStopped :
        .stopped
          ∈ (supervisor.abandonQueues
            .workerUnavailable).log :=
      abandonQueues_stopped supervisor _
    have hSilent :
        Silent
          (supervisor.abandonQueues .workerUnavailable).log :=
      abandonQueues_silent hInv.silent _
    split
    · rename_i hEmpty
      constructor
      · intro _
        exact ⟨rfl, rfl⟩
      · intro _
        rfl
      · exact ⟨fun _ => hStopped, fun _ => rfl⟩
      · exact hSilent
      · intro _
        exact Or.inl hEmpty
      · intro _
        exact Or.inl hEmpty
      · intro hWaits
        exact ⟨(hInv.failureWaits hWaits).1, rfl, rfl⟩
      · intro _
        exact ⟨rfl, rfl⟩
    · constructor
      · intro _
        exact ⟨rfl, rfl⟩
      · intro _
        rfl
      · exact ⟨fun _ => hStopped, fun _ => rfl⟩
      · exact hSilent
      · intro _
        exact Or.inr (Or.inr rfl)
      · exact hInv.failed
      · intro hWaits
        obtain ⟨hFailure, hTerminating, _⟩ :=
          hInv.failureWaits hWaits
        exact ⟨hFailure, hTerminating, rfl⟩
      · intro _
        exact ⟨rfl, rfl⟩

----------
-- Moves
----------

/- A lane is taken, with nothing logged. -/
theorem StopInv.occupied
    (hInv : supervisor.StopInv)
    (hLive : supervisor.disposed = false)
    (record : RequestRecord)
    (sends : Nat) :
    ({ supervisor.takeRead.2.nextId.occupyLane record with
        sends := sends }).StopInv := by
  unfold occupyLane
  split
  · exact
      hInv.of_live hLive (List.append_nil _).symm
        List.not_mem_nil rfl rfl rfl rfl
  · exact
      hInv.of_live hLive (List.append_nil _).symm
        List.not_mem_nil rfl rfl rfl rfl

theorem StopInv.answered
    (hInv : supervisor.StopInv)
    (detached : Bool)
    (promise : Nat)
    (settlement : Settlement) :
    ((supervisor.clearLane detached).settle promise
      settlement).StopInv := by
  have hMore :
      .stopped
        ∉ [Observation.settled promise settlement] := by
    simp
  have hQuiet :
      ∀ observation
        ∈ [Observation.settled promise settlement],
        observation.isSent = false := by
    intro observation hMem
    rw [List.mem_singleton] at hMem
    rw [hMem]
    rfl
  cases detached with
  | true =>
    refine hInv.of_quiet rfl hMore hQuiet id ?_ ?_
    · intro hEmpty
      simp only [lanesEmpty, Bool.and_eq_true] at hEmpty ⊢
      exact ⟨hEmpty.1, rfl⟩
    · exact ⟨rfl, rfl, rfl, rfl, rfl, rfl⟩
  | false =>
    refine hInv.of_quiet rfl hMore hQuiet id ?_ ?_
    · intro hEmpty
      simp only [lanesEmpty, Bool.and_eq_true] at hEmpty ⊢
      exact ⟨rfl, hEmpty.2⟩
    · exact ⟨rfl, rfl, rfl, rfl, rfl, rfl⟩

theorem StopInv.readCancelled
    (hInv : supervisor.StopInv)
    {record : RequestRecord}
    {reads : PendingReads}
    (hRemove :
      supervisor.pendingRequests.remove record = some reads)
    (settlement : Settlement) :
    ({ supervisor with pendingRequests := reads }.settle
      record.promise settlement).StopInv := by
  have hPerm := PendingReads.remove_perm hRemove
  have hMore :
      .stopped
        ∉ [Observation.settled record.promise settlement] := by
    simp
  refine hInv.of_quiet rfl hMore ?_ ?_ id ?_
  · intro observation hMem
    rw [List.mem_singleton] at hMem
    rw [hMem]
    rfl
  · intro hQueues
    rw [hQueues.2] at hPerm
    exact absurd hPerm.eq_nil (List.cons_ne_nil _ _)
  · exact ⟨rfl, rfl, rfl, rfl, rfl, rfl⟩

theorem stopInv_move
    (hMove : Move options message first second)
    (hInv : first.StopInv) :
    second.StopInv := by
  cases hMove with
  | pushed hLive =>
    refine
      hInv.of_live hLive (List.append_assoc _ _ _) ?_
        rfl rfl rfl rfl
    rw [List.mem_append, not_or]
    exact ⟨stopped_not_mem_rejections _ _, by simp⟩
  | joined hLive =>
    refine
      hInv.of_live hLive (List.append_assoc _ _ _) ?_
        rfl rfl rfl rfl
    rw [List.mem_append, not_or]
    exact ⟨stopped_not_mem_rejections _ _, by simp⟩
  | @mutationSent _ _ record _ hLive =>
    have hMore :
        .stopped
          ∉ [Observation.sent record.promise
            (.mutation ⟨options.epoch,
              first.appliedRevision + 1,
              record.input⟩)] := by
      simp
    exact hInv.of_live hLive rfl hMore rfl rfl rfl rfl
  | mutationLost _ _ hLive =>
    apply StopInv.fail
    exact
      hInv.of_live hLive (List.append_nil _).symm
        List.not_mem_nil rfl rfl rfl rfl
  | passedOver hNone =>
    have hReads := takeRead_none hNone
    refine
      hInv.of_quiet (List.append_nil _).symm
        List.not_mem_nil ?_ ?_ id ?_
    · intro observation hMem
      cases hMem
    · intro hQueues
      rw [hReads]
      exact hQueues
    · exact ⟨rfl, rfl, rfl, rfl, rfl, rfl⟩
  | @staleRejected _ _ record hLive =>
    have hMore :
        .stopped
          ∉ [Observation.settled record.promise
            (.rejected .contentModified)] := by
      simp
    exact hInv.of_live hLive rfl hMore rfl rfl rfl rfl
  | @requestSent _ _ record hLive =>
    have hMore :
        .stopped
          ∉ [Observation.sent record.promise
            (.request
              (first.wireRequest options record.input))] := by
      simp
    have hOccupied :=
      hInv.occupied hLive
        (first.numberRequest options record) first.sends
    refine hOccupied.of_live ?_ ?_ hMore ?_ ?_ ?_ ?_ <;>
      unfold occupyLane <;> split <;>
      first | exact hLive | rfl
  | requestLost sends hLive =>
    exact StopInv.fail (hInv.occupied hLive _ sends) false
  | @acknowledged _ _ record wire =>
    have hMore :
        .stopped
          ∉ [Observation.settled record.promise
            .acknowledged] := by
      simp
    refine hInv.of_quiet rfl hMore ?_ id ?_ ?_
    · intro observation hMem
      rw [List.mem_singleton] at hMem
      rw [hMem]
      rfl
    · intro hEmpty
      simp only [lanesEmpty, Bool.and_eq_true] at hEmpty ⊢
      exact ⟨rfl, hEmpty.2⟩
    · exact ⟨rfl, rfl, rfl, rfl, rfl, rfl⟩
  | answered => exact hInv.answered _ _ _
  | failed => exact hInv.fail _
  | activeSettled => exact hInv.settleActiveFailure _
  | restarted =>
    apply StopInv.shutDown
    apply hInv.silent.append_quiet
    intro observation hMem
    rw [List.mem_singleton] at hMem
    rw [hMem]
    rfl
  | refused =>
    have hMore :
        .stopped
          ∉ [Observation.settled first.nextPromise
            (.rejected .queueOverflow)] := by
      simp
    refine hInv.of_quiet rfl hMore ?_ id id ?_
    · intro observation hMem
      rw [List.mem_singleton] at hMem
      rw [hMem]
      rfl
    · exact ⟨rfl, rfl, rfl, rfl, rfl, rfl⟩
  | @enqueued _ _ _ input hLive =>
    have hMore :
        .stopped
          ∉ [Observation.requested first.nextPromise
            input] := by
      simp
    exact hInv.of_live hLive rfl hMore rfl rfl rfl rfl
  | cellCancelled =>
    refine
      hInv.of_quiet (List.append_nil _).symm
        List.not_mem_nil ?_ id id ?_
    · intro observation hMem
      cases hMem
    · exact ⟨rfl, rfl, rfl, rfl, rfl, rfl⟩
  | readCancelled hRemove =>
    exact hInv.readCancelled hRemove _
  | disposeCalled => exact hInv.dispose
  | terminated =>
    refine
      hInv.of_quiet (List.append_nil _).symm
        List.not_mem_nil ?_ id id ?_
    · intro observation hMem
      cases hMem
    · exact ⟨rfl, rfl, rfl, rfl, rfl, rfl⟩
  | deadlineElapsed =>
    refine
      hInv.of_quiet (List.append_nil _).symm
        List.not_mem_nil ?_ id id ?_
    · intro observation hMem
      cases hMem
    · exact ⟨rfl, rfl, rfl, rfl, rfl, rfl⟩
  | failureContinued => exact hInv.settledFailure _
  | lanesAwaited hWaits hEmpty =>
    constructor
    · exact hInv.queues
    · exact hInv.failure
    · exact hInv.stopped
    · exact hInv.silent
    · intro _
      exact Or.inl hEmpty
    · exact hInv.failed
    · intro hFailureWaits
      exact ⟨(hInv.failureWaits hFailureWaits).1, rfl, rfl⟩
    · intro hFalse
      cases hFalse
  | deadlineSettled => exact hInv.settledDispose _

theorem stopInv_initial : ({} : Supervisor).StopInv :=
  stopInv_of_live rfl rfl List.not_mem_nil rfl rfl

theorem stopInv_run
    (options : SupervisorOptions)
    (events : List SupervisorEvent) :
    (supervisorRun options events).StopInv :=
  supervisorRun_invariant
    (fun _ _ _ hMove hInv => stopInv_move hMove hInv)
    stopInv_initial events

----------
-- Settlement
----------

/- Every promise handed out has been settled. -/
def AllSettled
    (supervisor : Supervisor) :
    Prop :=
  ∀ promise < supervisor.nextPromise,
    promise ∈ settledPromises supervisor.log

/- With empty queues and lanes the place is the log. -/
theorem Placed.allSettled
    (hPlaced : supervisor.Placed)
    (hQueues :
      supervisor.pendingMutations = []
        ∧ supervisor.pendingRequests.records = [])
    (hEmpty : supervisor.lanesEmpty = true) :
    supervisor.AllSettled := by
  intro promise hLt
  have hPlace := hPlaced.places promise
  rw [if_pos hLt] at hPlace
  simp only [lanesEmpty, Bool.and_eq_true,
    Option.isNone_iff_eq_none] at hEmpty
  simp only [Supervisor.places, pendingMutationPromises,
    pendingRequestPromises, activePromise, detachedRequest,
    hQueues.1, hQueues.2, hEmpty.1, hEmpty.2, List.map_nil,
    Option.toList_none, List.count_nil] at hPlace
  apply List.count_pos_iff.mp
  omega

/- Behind its continuation a failure has settled all. -/
theorem failureContinues_allSettled
    (hPlaced : supervisor.Placed)
    (hInv : supervisor.StopInv)
    (hFailure : supervisor.failure.isSome = true)
    (hReady :
      supervisor.terminated = true
        ∨ supervisor.deadlineElapsed = true) :
    supervisor.failureContinues.AllSettled := by
  have hQueues := hInv.queues (hInv.failure hFailure)
  unfold failureContinues
  split
  · apply Placed.allSettled
    · exact (moved_settleLanes _ _).placed
        (hPlaced.moved (moved_of_same rfl rfl rfl rfl rfl rfl))
    · rw [settleLanes_eq]
      exact hQueues
    · rw [settleLanes_eq]
      rfl
  · rename_i hNot
    rcases hInv.failed hFailure with hEmpty | hWaits
    · exact hPlaced.allSettled hQueues hEmpty
    · exact absurd ⟨hWaits, hReady⟩ hNot

/- The deadline empties the lanes, whoever waits for it. -/
theorem deadline_lanesEmpty
    (hInv : supervisor.StopInv)
    (hDisposed : supervisor.disposed = true)
    (hElapsed : supervisor.deadlineElapsed = true) :
    supervisor.failureContinues.disposeContinues.lanesEmpty
      = true := by
  by_cases hFailing : supervisor.failureWaits = true
  · have hEmpty :
        supervisor.failureContinues.lanesEmpty = true := by
      unfold failureContinues
      rw [if_pos ⟨hFailing, Or.inr hElapsed⟩, settleLanes_eq]
      rfl
    unfold disposeContinues
    split
    · exact hEmpty
    · exact hEmpty
  · have hSame : supervisor.failureContinues = supervisor := by
      unfold failureContinues
      rw [if_neg]
      intro hWaits
      exact hFailing hWaits.1
    rw [hSame]
    unfold disposeContinues
    split
    · rename_i hNot
      rcases hInv.lanes hDisposed with hEmpty | hWaits
      · exact hEmpty
      · rcases hWaits with hFailure | hDispose
        · exact absurd hFailure hFailing
        · rw [hDispose] at hNot
          cases hNot
    · split
      · rename_i hEmpty
        exact hEmpty
      · rw [settleLanes_eq]
        rfl

/- The continuations keep what has been stopped. -/
theorem continues_disposed
    (hDisposed : supervisor.disposed = true) :
    supervisor.failureContinues.disposeContinues.disposed
      = true := by
  have hFirst :
      supervisor.failureContinues.disposed = true := by
    unfold failureContinues
    split
    · rw [settleLanes_eq]
      exact hDisposed
    · exact hDisposed
  unfold disposeContinues
  split
  · exact hFirst
  · split
    · exact hFirst
    · split
      · rw [settleLanes_eq]
        exact hFirst
      · exact hFirst

----------
-- Accounts
----------

/-
  The accounts of a supervisor.  A promise has one place:
  the queue, the pending reads, a lane, or the settled ones.
  Behind a stop the promises of the lanes settle with the
  termination, or with the deadline, which has been started.
-/
structure Accounted
    (options : SupervisorOptions)
    (supervisor : Supervisor) : Prop where
  bytes :
    supervisor.queuedMutationTextBytes
      = mutationBytes supervisor.pendingMutations
  records :
    supervisor.pendingMutations.length
      ≤ maxQueuedMutationRecords
  bound :
    supervisor.queuedMutationTextBytes
      ≤ maxQueuedMutationTextBytes
  place :
    ∀ promise < supervisor.nextPromise,
      supervisor.places promise = 1
  issued :
    ∀ promise ∈ issuedPromises supervisor.log,
      promise < supervisor.nextPromise
  settledOnce : (settledPromises supervisor.log).Nodup
  settled :
    supervisor.disposed = true →
    supervisor.failureWaits = false →
    supervisor.disposeWaits = false →
    supervisor.AllSettled
  terminates :
    supervisor.failure.isSome = true →
    supervisor.terminated = true
      ∨ supervisor.deadlineElapsed = true →
    (supervisorStep options supervisor
      .failureContinues).AllSettled
  elapses :
    supervisor.disposed = true →
    supervisor.deadlineElapsed = true →
    (run (supervisorStep options) supervisor
      [.failureContinues, .disposeContinues]).AllSettled
  awaited :
    supervisor.disposed = true →
    supervisor.AllSettled
      ∨ supervisor.deadlineStarted = true
  stopped :
    supervisor.failure.isSome = true
        ∨ supervisor.disposed = true ↔
      .stopped ∈ supervisor.log
  silent : Silent supervisor.log

/- A disposed supervisor whose lanes are not waited for. -/
theorem allSettled_of_noWaits
    (hPlaced : supervisor.Placed)
    (hInv : supervisor.StopInv)
    (hDisposed : supervisor.disposed = true)
    (hFailure : supervisor.failureWaits = false)
    (hDispose : supervisor.disposeWaits = false) :
    supervisor.AllSettled := by
  rcases hInv.lanes hDisposed with hEmpty | hWaits
  · exact hPlaced.allSettled (hInv.queues hDisposed) hEmpty
  · rw [hFailure, hDispose] at hWaits
    rcases hWaits with hFalse | hFalse <;> cases hFalse

/-
  In every run the queue is counted and bounded, each
  promise has one place and is settled at most once, a stop
  leaves no promise open, and nothing is sent behind it.
-/
theorem accounted_run
    (options : SupervisorOptions)
    (events : List SupervisorEvent) :
    (supervisorRun options events).Accounted options := by
  have hPlaced := placed_run options events
  have hQueue := queueInv_run options events
  have hInv := stopInv_run options events
  constructor
  · exact hQueue.bytes
  · exact hQueue.records
  · exact hQueue.bound
  · intro promise hLt
    rw [hPlaced.places, if_pos hLt]
  · exact hPlaced.issued
  · exact hPlaced.nodup_settled
  · exact allSettled_of_noWaits hPlaced hInv
  · exact failureContinues_allSettled hPlaced hInv
  · intro hDisposed hElapsed
    have hLast :
        run (supervisorStep options)
            (supervisorRun options events)
            [.failureContinues, .disposeContinues]
          = supervisorRun options
            (events
              ++ [.failureContinues, .disposeContinues]) :=
      (run_append _ _ _ _).symm
    have hAfter := continues_disposed hDisposed
    have hEmpty := deadline_lanesEmpty hInv hDisposed hElapsed
    rw [hLast]
    apply (placed_run options _).allSettled
    · apply (stopInv_run options _).queues
      rw [← hLast]
      exact hAfter
    · rw [← hLast]
      exact hEmpty
  · intro hDisposed
    rcases hInv.lanes hDisposed with hEmpty | hWaits
    · left
      exact
        hPlaced.allSettled (hInv.queues hDisposed) hEmpty
    · right
      rcases hWaits with hFailure | hDispose
      · exact (hInv.failureWaits hFailure).2.2
      · exact (hInv.disposeWaits hDispose).2
  · constructor
    · intro hStop
      rcases hStop with hFailure | hDisposed
      · exact hInv.stopped.mp (hInv.failure hFailure)
      · exact hInv.stopped.mp hDisposed
    · intro hMem
      exact Or.inr (hInv.stopped.mpr hMem)
  · exact hInv.silent

end Supervisor

end Semantic

end ArktsServer
