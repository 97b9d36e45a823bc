import ArktsServer.Semantic.RequestSelection
import ArktsServer.Semantic.SupervisorSettlement

/-
  Nothing waits that could be sent: the supervisor is idle
  only when its queues hold nothing that may go next.

  Key definitions include:
    * `Supervisor.Conserving`

  Correctness is proven by:
    * `Supervisor.pumpLoop_conserving`
    * `supervisorRun_conserving`
-/

----------
-- Pump
----------

namespace ArktsServer

namespace Semantic

open Transition

/- What is not taken waits behind a detached reference. -/
theorem PendingReads.waits_of_take
    {reads : PendingReads}
    {detached : Bool}
    {bypassed : Option RequestRecord}
    (hTake : (reads.take detached bypassed).1 = none) :
    ∀ record ∈ reads.records,
      detached = true ∧
        isInteractiveSemanticWorkerMethod record.input.method
          = false := by
  simp only [take] at hTake
  split at hTake
  · rename_i hNone
    cases hRecords : reads.records with
    | nil => exact fun _ hRecord => by cases hRecord
    | cons oldest later =>
      rw [hRecords] at hNone
      cases detached with
      | false =>
        rcases @takeNext_attached oldest later bypassed with
          ⟨_, _, _, _, hSelection, _⟩
        rw [hSelection] at hNone
        cases hNone
      | true =>
        have hLength :=
          Nat.le_antisymm List.findIdx_le_length
            (List.getElem?_eq_none_iff.mp hNone)
        intro record hRecord
        exact
          ⟨rfl, List.findIdx_eq_length.mp hLength record hRecord⟩
  · cases hTake

namespace Supervisor

variable {options : SupervisorOptions}
variable {supervisor : Supervisor}
variable {record : RequestRecord}

/-
  A live and idle supervisor has no mutation, and requests
  only that wait for the answer of a detached reference.
-/
def Conserving (supervisor : Supervisor) : Prop :=
  supervisor.disposed = false → supervisor.active = none →
    supervisor.pendingMutations = [] ∧
      ∀ record ∈ supervisor.pendingRequests.records,
        supervisor.detachedReference.isSome = true ∧
          isInteractiveSemanticWorkerMethod record.input.method
            = false

theorem conserving_of_disposed
    (hDisposed : supervisor.disposed = true) :
    supervisor.Conserving := by
  intro hLive
  cases hDisposed.symm.trans hLive

theorem conserving_of_active
    {command : CommandRecord}
    (hActive : supervisor.active = some command) :
    supervisor.Conserving := by
  intro _ hNone
  cases hActive.symm.trans hNone

theorem fail_conserving
    (hFailure : supervisor.failure = none)
    (endpointTerminal : Bool) :
    (supervisor.fail endpointTerminal).Conserving := by
  apply conserving_of_disposed
  unfold fail
  rw [hFailure]
  cases endpointTerminal
  · rfl
  · simp only [if_true, settleLanes_eq]
    rfl

theorem pumpMutation_conserving
    (hFailure : supervisor.failure = none)
    (record : MutationRecord) :
    (pumpMutation options supervisor record).Conserving := by
  unfold pumpMutation
  split
  · exact fail_conserving (by exact hFailure) _
  · simp only [send]
    split
    · exact fail_conserving (by exact hFailure) _
    · rename_i hSent
      split at hSent
      · cases hSent
      · cases hSent
        exact conserving_of_active rfl

/- Behind a references request the pump goes on. -/
theorem pumpRequest_conserving
    (hFailure : supervisor.failure = none)
    {further : Supervisor → Supervisor}
    (hFurther :
      ∀ sent : Supervisor, sent.failure = none →
        sent.pendingRequests = supervisor.pendingRequests →
          (further sent).Conserving) :
    (if record.input.method = .references ∧
        (pumpRequest options supervisor record).2 then
      further (pumpRequest options supervisor record).1
    else
      (pumpRequest options supervisor record).1).Conserving := by
  simp only [pumpRequest, enterLane, send]
  by_cases hMethod : record.input.method = .references
  · simp only [hMethod, if_true, true_and]
    split
    · exact fail_conserving (by exact hFailure) _
    · rename_i entered hEntered
      split at hEntered <;> cases hEntered
      split
      · exact fail_conserving (by exact hFailure) _
      · rename_i sent hSent
        split at hSent <;> cases hSent
        exact hFurther _ hFailure rfl
  · simp only [hMethod, if_false, false_and]
    split
    · exact fail_conserving (by exact hFailure) _
    · rename_i sent hSent
      split at hSent <;> cases hSent
      exact conserving_of_active rfl

theorem pumpLoop_conserving
    (fuel : Nat)
    {supervisor : Supervisor}
    (hFailure : supervisor.failure = none)
    (hFuel :
      supervisor.pendingRequests.records.length < fuel) :
    (pumpLoop options fuel supervisor).Conserving := by
  induction fuel generalizing supervisor with
  | zero => omega
  | succ fuel ih =>
    rw [pumpLoop]
    split
    · rename_i hBusy
      intro hLive hIdle
      simp [hLive, hIdle] at hBusy
    · split
      · exact pumpMutation_conserving (by exact hFailure) _
      · rename_i hQueue
        dsimp only
        split
        · rename_i hNone
          refine fun _ _ => ⟨hQueue, ?_⟩
          rw [PendingReads.take_none hNone]
          exact PendingReads.waits_of_take hNone
        · rename_i record hTaken
          have hLength := takeRead_length hTaken
          have hLess :
              supervisor.takeRead.2.pendingRequests.records.length
                < fuel := by
            omega
          split
          · exact ih hFailure hLess
          · refine
              pumpRequest_conserving (by exact hFailure)
                fun _ hSame hReads => ih hSame ?_
            rw [hReads]
            exact hLess

theorem pump_conserving
    (hFailure : supervisor.failure = none) :
    (pump options supervisor).Conserving :=
  pumpLoop_conserving _ hFailure (Nat.lt_succ_self _)

----------
-- Steps
----------

theorem mutate_conserving
    (hCons : supervisor.Conserving)
    (input : RootSemanticWorkerMutationInput) :
    (supervisor.mutate options input).1.Conserving := by
  unfold mutate
  split
  · exact hCons
  · rename_i hAvailable
    have hFailure := (assertAvailable_ok hAvailable).1
    have hRestart :
        supervisor.rejectMutationAndRestart.1.Conserving := by
      apply conserving_of_disposed
      simp [rejectMutationAndRestart, beginFatalShutdown,
        rejectedPromise, settle, observe, hFailure, shutDown,
        abandonQueues, terminateWithinDeadline]
    split
    · exact hCons
    · exact hRestart
    · unfold acceptMutation
      dsimp only
      split
      · exact hRestart
      · split
        · exact hRestart
        · split <;> exact pump_conserving hFailure

theorem request_conserving
    (hCons : supervisor.Conserving)
    (input : RootSemanticWorkerRequestInput) :
    (supervisor.request options input).1.Conserving := by
  unfold request
  split
  · exact hCons
  · rename_i hAvailable
    split
    · exact hCons
    · split
      · exact hCons
      · exact pump_conserving (assertAvailable_ok hAvailable).1

theorem cancelRequest_conserving
    (hCons : supervisor.Conserving)
    (promise : Nat)
    (reason : SemanticWorkerTerminalCancellationState) :
    (supervisor.cancelRequest promise reason).Conserving := by
  simp only [cancelRequest]
  repeat' split
  all_goals try exact hCons
  rename_i hRemove
  intro hLive hIdle
  rcases hCons hLive hIdle with ⟨hQueue, hWaits⟩
  refine ⟨hQueue, fun other hOther => hWaits other ?_⟩
  exact
    (PendingReads.remove_perm hRemove).mem_iff.mp
      (List.mem_cons_of_mem _ hOther)

theorem settleRequest_failure
    {answer : WorkerMessage}
    {detached : Bool}
    {next : Supervisor}
    (hNext :
      settleRequest options supervisor record answer detached
        = some next) :
    next.failure = supervisor.failure := by
  unfold settleRequest at hNext
  repeat' split at hNext
  all_goals cases hNext
  all_goals rfl

theorem proceed_conserving
    {settled : Option Supervisor}
    (hFailure : supervisor.failure = none)
    (hSettled :
      ∀ next, settled = some next →
        next.failure = supervisor.failure) :
    (proceed options supervisor settled).Conserving := by
  cases settled with
  | none => exact fail_conserving hFailure _
  | some next =>
    exact pump_conserving ((hSettled next rfl).trans hFailure)

theorem receive_conserving
    (hCons : supervisor.Conserving)
    (answer : WorkerMessage) :
    (supervisor.receive options answer).Conserving := by
  unfold receive
  split
  · exact hCons
  · rename_i hNone
    have hFailure : supervisor.failure = none := by
      simpa using hNone
    split
    · exact
        proceed_conserving hFailure
          fun _ hNext => settleRequest_failure hNext
    · split
      · exact fail_conserving hFailure _
      · refine proceed_conserving hFailure fun _ hNext => ?_
        unfold acknowledge at hNext
        split at hNext
        · split at hNext <;> cases hNext
          rfl
        · cases hNext
      · exact
          proceed_conserving hFailure
            fun _ hNext => settleRequest_failure hNext

theorem conserving_step
    (hInv : supervisor.StopInv)
    (hCons : supervisor.Conserving)
    (event : SupervisorEvent) :
    (supervisorStep options supervisor event).Conserving := by
  have hFail : (supervisor.fail true).Conserving := by
    cases hFailure : supervisor.failure with
    | none => exact fail_conserving hFailure true
    | some failure =>
      apply conserving_of_disposed
      unfold fail
      rw [hFailure]
      simp only [if_true, settleActiveFailure_eq]
      exact hInv.failure (by rw [hFailure]; rfl)
  cases event with
  | mutate input => exact mutate_conserving hCons input
  | request input => exact request_conserving hCons input
  | cancel promise reason =>
    exact cancelRequest_conserving hCons promise reason
  | message message => exact receive_conserving hCons message
  | endpointError | endpointExit => exact hFail
  | dispose =>
    simp only [supervisorStep, dispose]
    split
    · exact hCons
    · split <;> exact conserving_of_disposed rfl
  | terminated | deadlineElapsed => exact hCons
  | failureContinues =>
    simp only [supervisorStep, failureContinues]
    split
    · rename_i hWaits
      rw [settleLanes_eq]
      exact
        conserving_of_disposed
          (hInv.failure (hInv.failureWaits hWaits.1).1)
    · exact hCons
  | disposeContinues =>
    simp only [supervisorStep, disposeContinues]
    split
    · exact hCons
    · rename_i hNot
      have hWaits : supervisor.disposeWaits = true := by
        simpa using hNot
      have hDisposed := (hInv.disposeWaits hWaits).1
      split
      · exact conserving_of_disposed hDisposed
      · split
        · rw [settleLanes_eq]
          exact conserving_of_disposed hDisposed
        · exact hCons

end Supervisor

/-
  In every run something is active, or nothing waits that
  could be sent: no mutation, and requests only until the
  detached reference is answered, which they may not pass.
-/
theorem supervisorRun_conserving
    (options : SupervisorOptions)
    (events : List SupervisorEvent) :
    let supervisor := supervisorRun options events
    supervisor.active.isSome = true ∨
      supervisor.pendingMutations = [] ∧
        ∀ record ∈ supervisor.pendingRequests.records,
          supervisor.detachedReference.isSome = true ∧
            isInteractiveSemanticWorkerMethod
              record.input.method = false := by
  intro supervisor
  have hInv : supervisor.StopInv ∧ supervisor.Conserving :=
    @run_invariant _ _ (supervisorStep options)
      (fun state => state.StopInv ∧ state.Conserving)
      (fun state event hState =>
        ⟨(supervisorStep_moves options state event).invariant
            (fun _ _ => Supervisor.stopInv_move) hState.1,
          Supervisor.conserving_step hState.1 hState.2 event⟩)
      {} ⟨Supervisor.stopInv_initial, fun _ _ => by simp⟩ events
  cases hActive : supervisor.active with
  | some command => exact .inl rfl
  | none =>
    right
    cases hDisposed : supervisor.disposed with
    | false => exact hInv.2 hDisposed hActive
    | true =>
      rcases hInv.1.queues hDisposed with ⟨hQueue, hRecords⟩
      rw [hRecords]
      exact ⟨hQueue, fun _ hRecord => by cases hRecord⟩

end Semantic

end ArktsServer
