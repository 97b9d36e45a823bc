import ArktsServer.Semantic.WorkerSupervisor
import Mathlib.Logic.Relation

/-
  What one event can do to the supervisor: every step is a
  sequence of moves, and an invariant of the supervisor is
  a property that each move keeps.

  Key definitions include:
    * `Semantic.Move`
    * `Semantic.Moves`

  Correctness is proven by:
    * `Semantic.supervisorStep_moves`
    * `Semantic.supervisorRun_invariant`
-/

namespace ArktsServer

namespace Semantic

open Transition

namespace Supervisor

variable {supervisor : Supervisor}

----------
-- Record Forms
----------

/- The promise of the active command. -/
def activePromise
    (supervisor : Supervisor) :
    List Nat :=
  supervisor.active.toList.map CommandRecord.promise

/- The rejection of the active command in a failure. -/
def activeFailure
    (supervisor : Supervisor)
    (failure : SemanticWorkerErrorCode) :
    List Observation :=
  match supervisor.active with
  | none => []
  | some (.mutation record) =>
      rejections failure [record.promise]
  | some (.request record) =>
      rejections
        (laneError (supervisor.cells record.promise) failure)
        [record.promise]

/- The rejection of the detached request in a failure. -/
def detachedFailure
    (supervisor : Supervisor)
    (failure : SemanticWorkerErrorCode) :
    List Observation :=
  match supervisor.detachedReference with
  | none => []
  | some record =>
      rejections
        (laneError (supervisor.cells record.promise) failure)
        [record.promise]

variable {P : Observation → Prop}

theorem forall_rejections
    (hP :
      ∀ promise code, P (.settled promise (.rejected code)))
    (code : SemanticWorkerErrorCode)
    (promises : List Nat) :
    ∀ observation ∈ rejections code promises,
      P observation := by
  intro observation hMem
  obtain ⟨promise, _, hEq⟩ := List.mem_map.mp hMem
  rw [← hEq]
  exact hP promise code

theorem forall_activeFailure
    (hP :
      ∀ promise code, P (.settled promise (.rejected code)))
    (supervisor : Supervisor)
    (failure : SemanticWorkerErrorCode) :
    ∀ observation ∈ supervisor.activeFailure failure,
      P observation := by
  unfold activeFailure
  cases supervisor.active with
  | none => exact List.forall_mem_nil _
  | some command =>
    cases command with
    | mutation record => exact forall_rejections hP _ _
    | request record => exact forall_rejections hP _ _

/- Lanes that fail are settled by rejections alone. -/
theorem forall_lanesFailure
    (hP :
      ∀ promise code, P (.settled promise (.rejected code)))
    (supervisor : Supervisor)
    (failure : SemanticWorkerErrorCode) :
    ∀ observation
      ∈ supervisor.activeFailure failure
        ++ supervisor.detachedFailure failure,
      P observation := by
  refine
    List.forall_mem_append.mpr
      ⟨forall_activeFailure hP supervisor failure, ?_⟩
  unfold detachedFailure
  cases supervisor.detachedReference with
  | none => exact List.forall_mem_nil _
  | some record => exact forall_rejections hP _ _

theorem settleActiveFailure_eq
    (supervisor : Supervisor)
    (failure : SemanticWorkerErrorCode) :
    supervisor.settleActiveFailure failure
      = { supervisor with
          active := none
          log :=
            supervisor.log
              ++ supervisor.activeFailure failure } := by
  unfold settleActiveFailure activeFailure
  cases hActive : supervisor.active with
  | none =>
    cases supervisor
    cases hActive
    simp only [List.append_nil]
  | some command => cases command <;> rfl

theorem settleDetachedFailure_eq
    (supervisor : Supervisor)
    (failure : SemanticWorkerErrorCode) :
    supervisor.settleDetachedFailure failure
      = { supervisor with
          detachedReference := none
          log :=
            supervisor.log
              ++ supervisor.detachedFailure failure } := by
  unfold settleDetachedFailure detachedFailure
  cases hDetached : supervisor.detachedReference with
  | none =>
    cases supervisor
    cases hDetached
    simp only [List.append_nil]
  | some record => rfl

theorem settleLanes_eq
    (supervisor : Supervisor)
    (failure : SemanticWorkerErrorCode) :
    supervisor.settleLanes failure
      = { supervisor with
          active := none
          detachedReference := none
          log :=
            supervisor.log
              ++ (supervisor.activeFailure failure
                ++ supervisor.detachedFailure failure) } := by
  unfold settleLanes
  rw [settleDetachedFailure_eq, settleActiveFailure_eq]
  simp only [detachedFailure, List.append_assoc]

/- A failure that finds none before it. -/
theorem fail_eq
    (hFailure : supervisor.failure = none)
    (endpointTerminal : Bool) :
    supervisor.fail endpointTerminal
      = if endpointTerminal then
          (supervisor.shutDown .workerUnavailable).settleLanes
            .workerUnavailable
        else
          { supervisor.shutDown .workerUnavailable with
            failureWaits := true } := by
  unfold fail
  rw [hFailure]

end Supervisor

----------
-- Moves
----------

namespace Supervisor

variable (supervisor : Supervisor)

/- The queue without its head. -/
def shiftMutation
    (record : MutationRecord)
    (records : List MutationRecord) :
    Supervisor :=
  { supervisor with
    pendingMutations := records
    queuedMutationTextBytes :=
      supervisor.queuedMutationTextBytes - record.textBytes }

/- The reads without the selected request. -/
def takeRead
    (supervisor : Supervisor) :
    Option RequestRecord × Supervisor :=
  let selection :=
    supervisor.pendingRequests.take
      supervisor.detachedReference.isSome
      supervisor.bypassedDiagnostic
  (selection.1,
    { supervisor with
      pendingRequests := selection.2.2
      bypassedDiagnostic := selection.2.1 })

/- The mutation is active; `wire` is what has been sent. -/
def activateMutation
    (record : MutationRecord)
    (wire : Option SemanticWorkerMutation) :
    Supervisor :=
  { supervisor with
    active := some (.mutation { record with wire := wire }) }

/- The lane of a request that is sent. -/
def occupyLane
    (record : RequestRecord) :
    Supervisor :=
  if record.input.method = .references then
    { supervisor with detachedReference := some record }
  else
    { supervisor with active := some (.request record) }

/- The request under the next identifier. -/
def numberRequest
    (options : SupervisorOptions)
    (record : RequestRecord) :
    RequestRecord :=
  { record with
    wire :=
      some (supervisor.wireRequest options record.input) }

def nextId
    (supervisor : Supervisor) :
    Supervisor :=
  { supervisor with
    nextRequestId := supervisor.nextRequestId + 1 }

/- The command has gone to the endpoint. -/
def delivered
    (promise : Nat)
    (command : SemanticWorkerCommand) :
    Supervisor :=
  { supervisor with
    sends := supervisor.sends + 1 }.observe
      [.sent promise command]

/- The lane is free again. -/
def clearLane
    (detached : Bool) :
    Supervisor :=
  if detached then
    { supervisor with detachedReference := none }
  else
    { supervisor with active := none }

/- The request of a lane. -/
def laneRequest
    (detached : Bool) :
    Option CommandRecord :=
  if detached then
    supervisor.detachedReference.map CommandRecord.request
  else
    supervisor.active

end Supervisor

open Supervisor in
/-
  One move of the supervisor.  The first argument is the
  message that is being received, if there is one.
-/
inductive Move
    (options : SupervisorOptions) :
    Option WorkerMessage → Supervisor → Supervisor → Prop where
| pushed
    {message : Option WorkerMessage}
    {supervisor : Supervisor}
    {snapshot : RootSemanticWorkerMutationInput}
    (hLive : supervisor.disposed = false)
    (hAlone :
      findCoalescingMutation supervisor.pendingMutations
        snapshot = none)
    (hBounds :
      supervisor.exceedsQueueBounds none snapshot snapshot
        = false) :
    Move options message supervisor
      (supervisor.nextGeneration.pushMutation snapshot)
| joined
    {message : Option WorkerMessage}
    {supervisor : Supervisor}
    {record : MutationRecord}
    {snapshot next : RootSemanticWorkerMutationInput}
    (hLive : supervisor.disposed = false)
    (hExisting :
      findCoalescingMutation supervisor.pendingMutations
        snapshot = some record)
    (hNext : next = joinMutations record.input snapshot)
    (hBounds :
      supervisor.exceedsQueueBounds (some record) snapshot next
        = false) :
    Move options message supervisor
      (supervisor.nextGeneration.joinMutation record
        snapshot next)
| mutationSent
    {message : Option WorkerMessage}
    {supervisor : Supervisor}
    {record : MutationRecord}
    {records : List MutationRecord}
    (hLive : supervisor.disposed = false)
    (hIdle : supervisor.active = none)
    (hQueue : supervisor.pendingMutations = record :: records) :
    Move options message supervisor
      (((supervisor.shiftMutation record
        records).activateMutation record
          (some ⟨options.epoch, supervisor.appliedRevision + 1,
            record.input⟩)).delivered record.promise
        (.mutation ⟨options.epoch,
          supervisor.appliedRevision + 1, record.input⟩))
| mutationLost
    {message : Option WorkerMessage}
    {supervisor : Supervisor}
    {record : MutationRecord}
    {records : List MutationRecord}
    (wire : Option SemanticWorkerMutation)
    (sends : Nat)
    (hLive : supervisor.disposed = false)
    (hIdle : supervisor.active = none)
    (hQueue : supervisor.pendingMutations = record :: records) :
    Move options message supervisor
      (({ supervisor.shiftMutation record records with
          sends := sends }.activateMutation record wire).fail
        false)
| passedOver
    {message : Option WorkerMessage}
    {supervisor : Supervisor}
    (hNone : supervisor.takeRead.1 = none) :
    Move options message supervisor supervisor.takeRead.2
| staleRejected
    {message : Option WorkerMessage}
    {supervisor : Supervisor}
    {record : RequestRecord}
    (hLive : supervisor.disposed = false)
    (hTaken : supervisor.takeRead.1 = some record) :
    Move options message supervisor
      (supervisor.takeRead.2.rejectStale record)
| requestSent
    {message : Option WorkerMessage}
    {supervisor : Supervisor}
    {record : RequestRecord}
    (hLive : supervisor.disposed = false)
    (hIdle : supervisor.active = none)
    (hQueue : supervisor.pendingMutations = [])
    (hTaken : supervisor.takeRead.1 = some record)
    (hLane :
      record.input.method = .references →
        supervisor.detachedReference = none) :
    Move options message supervisor
      ((supervisor.takeRead.2.nextId.occupyLane
          (supervisor.numberRequest options record)).delivered
        record.promise
        (.request
          (supervisor.wireRequest options record.input)))
| requestLost
    {message : Option WorkerMessage}
    {supervisor : Supervisor}
    {record : RequestRecord}
    (sends : Nat)
    (hLive : supervisor.disposed = false)
    (hIdle : supervisor.active = none)
    (hTaken : supervisor.takeRead.1 = some record)
    (hLane :
      record.input.method = .references →
        supervisor.detachedReference = none) :
    Move options message supervisor
      ({ supervisor.takeRead.2.nextId.occupyLane
          (supervisor.numberRequest options record) with
          sends := sends }.fail false)
| acknowledged
    {message : WorkerMessage}
    {supervisor : Supervisor}
    {record : MutationRecord}
    {wire : SemanticWorkerMutation}
    (hFailure : supervisor.failure = none)
    (hActive : supervisor.active = some (.mutation record))
    (hWire : record.wire = some wire)
    (hMessage :
      message = .ack ⟨options.epoch, wire.revision⟩) :
    Move options (some message) supervisor
      ({ supervisor with
          appliedRevision := wire.revision
          active := none }.settle record.promise .acknowledged)
| answered
    {message : WorkerMessage}
    {supervisor : Supervisor}
    {record : RequestRecord}
    {wire : SemanticWorkerRequest}
    {response : SemanticWorkerResponse}
    {detached : Bool}
    (hFailure : supervisor.failure = none)
    (hRecord :
      supervisor.laneRequest detached
        = some (.request record))
    (hWire : record.wire = some wire)
    (hMessage : message = .response response)
    (hMatches : matchesRequest options wire response = true) :
    Move options (some message) supervisor
      ((supervisor.clearLane detached).settle record.promise
        (responseSettlement
          (supervisor.cells record.promise) response))
| failed
    {message : Option WorkerMessage}
    {supervisor : Supervisor}
    {endpointTerminal : Bool}
    (hFailure : supervisor.failure = none) :
    Move options message supervisor
      (supervisor.fail endpointTerminal)
| activeSettled
    {message : Option WorkerMessage}
    {supervisor : Supervisor}
    {failure : SemanticWorkerErrorCode}
    (hFailure : supervisor.failure = some failure) :
    Move options message supervisor
      (supervisor.settleActiveFailure failure)
| restarted
    {message : Option WorkerMessage}
    {supervisor : Supervisor}
    (hLive : supervisor.disposed = false)
    (hFailure : supervisor.failure = none) :
    Move options message supervisor
      { (supervisor.rejectedPromise .restartRequired).shutDown
          .restartRequired with
        failureWaits := true }
| refused
    {message : Option WorkerMessage}
    {supervisor : Supervisor} :
    Move options message supervisor
      (supervisor.rejectedPromise .queueOverflow)
| enqueued
    {message : Option WorkerMessage}
    {supervisor : Supervisor}
    {reads : PendingReads}
    {input : RootSemanticWorkerRequestInput}
    (hLive : supervisor.disposed = false)
    (hAdd :
      supervisor.pendingRequests.add options.protocol
        (supervisor.newRequest input) = some reads) :
    Move options message supervisor
      (supervisor.enqueueRequest reads input)
| cellCancelled
    {message : Option WorkerMessage}
    {supervisor : Supervisor}
    {promise : Nat}
    {reason : SemanticWorkerTerminalCancellationState}
    (hIssued : promise < supervisor.nextPromise) :
    Move options message supervisor
      (supervisor.cancelCells reason [promise])
| readCancelled
    {message : Option WorkerMessage}
    {supervisor : Supervisor}
    {record : RequestRecord}
    {reads : PendingReads}
    {code : SemanticWorkerErrorCode}
    (hRemove :
      supervisor.pendingRequests.remove record = some reads) :
    Move options message supervisor
      ({ supervisor with pendingRequests := reads }.settle
        record.promise (.rejected code))
| disposeCalled
    {message : Option WorkerMessage}
    {supervisor : Supervisor}
    (hFirst : supervisor.disposing = false) :
    Move options message supervisor supervisor.dispose
| terminated
    {message : Option WorkerMessage}
    {supervisor : Supervisor} :
    Move options message supervisor
      { supervisor with
        terminated :=
          supervisor.terminated || supervisor.terminating }
| deadlineElapsed
    {message : Option WorkerMessage}
    {supervisor : Supervisor} :
    Move options message supervisor
      { supervisor with
        deadlineElapsed :=
          supervisor.deadlineElapsed
            || supervisor.deadlineStarted }
| failureContinued
    {message : Option WorkerMessage}
    {supervisor : Supervisor}
    (hWaits : supervisor.failureWaits = true) :
    Move options message supervisor
      ({ supervisor with failureWaits := false }.settleLanes
        (supervisor.failure.getD .workerUnavailable))
| lanesAwaited
    {message : Option WorkerMessage}
    {supervisor : Supervisor}
    (hWaits : supervisor.disposeWaits = true)
    (hEmpty : supervisor.lanesEmpty = true) :
    Move options message supervisor
      { supervisor with
        disposeWaits := false }.terminateWithinDeadline
| deadlineSettled
    {message : Option WorkerMessage}
    {supervisor : Supervisor}
    (hWaits : supervisor.disposeWaits = true) :
    Move options message supervisor
      ({ supervisor with
          disposeWaits := false
          terminating := true }.settleLanes .workerUnavailable)

/- A sequence of moves. -/
def Moves
    (options : SupervisorOptions)
    (message : Option WorkerMessage) :
    Supervisor → Supervisor → Prop :=
  Relation.ReflTransGen (Move options message)

namespace Moves

variable {options : SupervisorOptions}
variable {message : Option WorkerMessage}
variable {first second third : Supervisor}

theorem refl
    (supervisor : Supervisor) :
    Moves options message supervisor supervisor :=
  Relation.ReflTransGen.refl

theorem one
    (hMove : Move options message first second) :
    Moves options message first second :=
  Relation.ReflTransGen.single hMove

theorem trans
    (hFirst : Moves options message first second)
    (hSecond : Moves options message second third) :
    Moves options message first third :=
  Relation.ReflTransGen.trans hFirst hSecond

/- What every move keeps, a sequence of moves keeps. -/
theorem invariant
    {Inv : Supervisor → Prop}
    (hMove :
      ∀ first second,
        Move options message first second →
        Inv first → Inv second)
    (hMoves : Moves options message first second)
    (hInv : Inv first) :
    Inv second := by
  induction hMoves with
  | refl => exact hInv
  | tail _ hLast ih => exact hMove _ _ hLast ih

end Moves

----------
-- Pump
----------

/- The detached lane only lets interactive requests pass. -/
theorem takeNext_interactive
    {pending : List RequestRecord}
    {bypassed : Option RequestRecord}
    {record : RequestRecord}
    (hRequest :
      (takeNextSemanticWorkerRequest pending true
        bypassed).request = some record) :
    isInteractiveSemanticWorkerMethod record.input.method
      = true := by
  cases pending with
  | nil => cases hRequest
  | cons oldest later =>
    obtain ⟨hLt, hGet⟩ := List.getElem?_eq_some_iff.mp hRequest
    rw [← hGet]
    exact
      @List.findIdx_getElem _
        (fun record : RequestRecord =>
          isInteractiveSemanticWorkerMethod record.input.method)
        (oldest :: later) hLt

namespace Supervisor

variable {options : SupervisorOptions}
variable {message : Option WorkerMessage}
variable {supervisor : Supervisor}

variable {record : RequestRecord}

/- No references request is taken while one is detached. -/
theorem takeRead_references
    (hTaken : supervisor.takeRead.1 = some record)
    (hMethod : record.input.method = .references) :
    supervisor.detachedReference = none := by
  cases hDetached : supervisor.detachedReference with
  | none => rfl
  | some detached =>
    exfalso
    simp only [takeRead, PendingReads.take, hDetached,
      Option.isSome_some] at hTaken
    split at hTaken
    · cases hTaken
    · rename_i taken hRequest
      cases hTaken
      have hInteractive := takeNext_interactive hRequest
      rw [hMethod] at hInteractive
      exact absurd hInteractive (by decide)

theorem pumpMutation_moves
    {record : MutationRecord}
    {records : List MutationRecord}
    (hLive : supervisor.disposed = false)
    (hIdle : supervisor.active = none)
    (hQueue : supervisor.pendingMutations = record :: records) :
    Moves options message supervisor
      (pumpMutation options
        (supervisor.shiftMutation record records) record) := by
  unfold pumpMutation
  cases hWire :
      wireMutation options.protocol options.epoch
        ((supervisor.shiftMutation record
          records).appliedRevision + 1) record.input with
  | error error =>
    exact
      Moves.one
        (Move.mutationLost record.wire supervisor.sends
          hLive hIdle hQueue)
  | ok wire =>
    have hEq := wireMutation_eq options.protocol hWire
    subst hEq
    simp only [send]
    split
    · rename_i hNone
      exact
        Moves.one
          (Move.mutationLost
            (some ⟨options.epoch,
              supervisor.appliedRevision + 1,
              record.input⟩)
            (supervisor.sends + 1) hLive hIdle hQueue)
    · rename_i sent hSome
      split at hSome
      · cases hSome
      · cases hSome
        exact Moves.one (Move.mutationSent hLive hIdle hQueue)

/-
  A request is sent, or lost in a failure.  The busy lane
  does not come up.
-/
theorem pumpRequest_moves
    (hLive : supervisor.disposed = false)
    (hIdle : supervisor.active = none)
    (hQueue : supervisor.pendingMutations = [])
    (hTaken : supervisor.takeRead.1 = some record) :
    Moves options message supervisor
      (pumpRequest options supervisor.takeRead.2
        record).1 := by
  have hLane := takeRead_references hTaken
  have hEnter :
      supervisor.takeRead.2.nextId.enterLane
          (supervisor.numberRequest options record)
        = some
          (supervisor.takeRead.2.nextId.occupyLane
            (supervisor.numberRequest options record)) := by
    unfold enterLane occupyLane
    by_cases hMethod : record.input.method = .references
    · have hFree :
          supervisor.takeRead.2.nextId.detachedReference
            = none := hLane hMethod
      simp [numberRequest, hMethod, hFree]
    · simp [numberRequest, hMethod]
  unfold pumpRequest
  have hNumbered :
      ({ supervisor.takeRead.2 with
          nextRequestId :=
            supervisor.takeRead.2.nextRequestId + 1 } :
          Supervisor).enterLane
          { record with
            wire :=
              some
                (supervisor.takeRead.2.wireRequest options
                  record.input) }
        = some
          (supervisor.takeRead.2.nextId.occupyLane
            (supervisor.numberRequest options record)) := hEnter
  simp only [hNumbered, send]
  split
  · exact
      Moves.one
        (Move.requestLost
          ((supervisor.takeRead.2.nextId.occupyLane
            (supervisor.numberRequest options record)).sends + 1)
          hLive hIdle hTaken hLane)
  · rename_i sent hSome
    split at hSome
    · cases hSome
    · cases hSome
      exact
        Moves.one
          (Move.requestSent hLive hIdle hQueue hTaken hLane)

/- Taking a request shortens the reads. -/
theorem takeRead_length
    (hTaken : supervisor.takeRead.1 = some record) :
    supervisor.takeRead.2.pendingRequests.records.length + 1
      = supervisor.pendingRequests.records.length := by
  have hLength := (PendingReads.take_perm hTaken).length_eq
  rw [List.length_cons] at hLength
  exact hLength

/- `#pump` is a sequence of moves. -/
theorem pumpLoop_moves
    (fuel : Nat)
    (supervisor : Supervisor) :
    Moves options message supervisor
      (pumpLoop options fuel supervisor) := by
  induction fuel generalizing supervisor with
  | zero => exact Moves.refl _
  | succ fuel ih =>
    rw [pumpLoop]
    split
    · exact Moves.refl _
    · rename_i hIdle
      have hActive : supervisor.active = none := by
        cases hActive : supervisor.active with
        | none => rfl
        | some command =>
          exact absurd (Or.inl (by rw [hActive]; rfl)) hIdle
      have hLive : supervisor.disposed = false := by
        cases hDisposed : supervisor.disposed with
        | false => rfl
        | true => exact absurd (Or.inr hDisposed) hIdle
      split
      · rename_i record records hQueue
        exact pumpMutation_moves hLive hActive hQueue
      · rename_i hQueue
        dsimp only
        split
        · rename_i hNone
          exact Moves.one (Move.passedOver hNone)
        · rename_i record hTaken
          split
          · exact
              (Moves.one
                (Move.staleRejected hLive hTaken)).trans
                (ih _)
          · have hPumped :
                Moves options message supervisor
                  (pumpRequest options supervisor.takeRead.2
                    record).1 :=
              pumpRequest_moves hLive hActive hQueue hTaken
            split
            · exact hPumped.trans (ih _)
            · exact hPumped

theorem pump_moves
    (supervisor : Supervisor) :
    Moves options message supervisor
      (pump options supervisor) :=
  pumpLoop_moves _ supervisor

----------
-- Calls
----------

theorem rejectMutationAndRestart_moves
    (hLive : supervisor.disposed = false)
    (hFailure : supervisor.failure = none) :
    Moves options message supervisor
      supervisor.rejectMutationAndRestart.1 := by
  have hEq :
      supervisor.rejectMutationAndRestart.1
        = { (supervisor.rejectedPromise
              .restartRequired).shutDown .restartRequired with
            failureWaits := true } := by
    simp only [rejectMutationAndRestart, beginFatalShutdown,
      rejectedPromise, settle, observe, hFailure]
  rw [hEq]
  exact Moves.one (Move.restarted hLive hFailure)

theorem acceptMutation_moves
    (hLive : supervisor.disposed = false)
    (hFailure : supervisor.failure = none)
    (snapshot : RootSemanticWorkerMutationInput) :
    Moves options message supervisor
      (acceptMutation options supervisor snapshot).1 := by
  unfold acceptMutation
  dsimp only
  split
  · exact rejectMutationAndRestart_moves hLive hFailure
  · rename_i next hNext
    split
    · exact rejectMutationAndRestart_moves hLive hFailure
    · rename_i hBounds
      have hFits := eq_false_of_ne_true hBounds
      split
      · rename_i hAlone
        rw [hAlone] at hNext hFits
        cases hNext
        exact
          (Moves.one
            (Move.pushed hLive hAlone hFits)).trans
            (pump_moves _)
      · rename_i record hExisting
        rw [hExisting] at hNext hFits
        have hJoined := mergeMutations_eq options.protocol hNext
        exact
          (Moves.one
            (Move.joined hLive hExisting hJoined hFits)).trans
            (pump_moves _)

/- A call passes `#assertAvailable` on a live supervisor. -/
theorem assertAvailable_ok
    (hAvailable : supervisor.assertAvailable = .ok ()) :
    supervisor.failure = none
      ∧ supervisor.disposed = false := by
  unfold assertAvailable at hAvailable
  split at hAvailable
  · cases hAvailable
  · rename_i hFailure
    split at hAvailable
    · cases hAvailable
    · rename_i hLive
      exact ⟨hFailure, eq_false_of_ne_true hLive⟩

theorem mutate_moves
    (input : RootSemanticWorkerMutationInput) :
    Moves options message supervisor
      (supervisor.mutate options input).1 := by
  unfold mutate
  split
  · exact Moves.refl _
  · rename_i hAvailable
    obtain ⟨hFailure, hLive⟩ := assertAvailable_ok hAvailable
    split
    · exact Moves.refl _
    · exact rejectMutationAndRestart_moves hLive hFailure
    · exact acceptMutation_moves hLive hFailure _

theorem request_moves
    (input : RootSemanticWorkerRequestInput) :
    Moves options message supervisor
      (supervisor.request options input).1 := by
  unfold request
  split
  · exact Moves.refl _
  · rename_i hAvailable
    obtain ⟨_, hLive⟩ := assertAvailable_ok hAvailable
    split
    · exact Moves.refl _
    · split
      · exact Moves.one Move.refused
      · rename_i reads hAdd
        exact
          (Moves.one (Move.enqueued hLive hAdd)).trans
            (pump_moves _)

theorem cancelRequest_moves
    (promise : Nat)
    (reason : SemanticWorkerTerminalCancellationState) :
    Moves options message supervisor
      (supervisor.cancelRequest promise reason) := by
  unfold cancelRequest
  split
  · exact Moves.refl _
  · rename_i hIssued
    have hCancelled :
        Moves options message supervisor
          (supervisor.cancelCells reason [promise]) :=
      Moves.one (Move.cellCancelled (Nat.lt_of_not_le hIssued))
    dsimp only
    split
    · exact hCancelled
    · split
      · exact hCancelled
      · rename_i record hFind
        split
        · exact hCancelled
        · rename_i reads hRemove
          have hPromise : record.promise = promise := by
            simpa using List.find?_some hFind
          rw [← hPromise] at hCancelled ⊢
          exact
            hCancelled.trans
              (Moves.one (Move.readCancelled hRemove))

----------
-- Messages and Continuations
----------

variable {answer : WorkerMessage}

theorem acknowledge_moves
    {record : MutationRecord}
    {next : Supervisor}
    (hFailure : supervisor.failure = none)
    (hActive : supervisor.active = some (.mutation record))
    (hNext :
      acknowledge options supervisor record answer
        = some next) :
    Moves options (some answer) supervisor next := by
  unfold acknowledge at hNext
  split at hNext
  · rename_i ack wire hWire
    split at hNext
    · rename_i hAck
      cases hNext
      obtain ⟨hEpoch, hRevision⟩ := hAck
      rw [hRevision]
      apply Moves.one
      refine Move.acknowledged hFailure hActive hWire ?_
      rw [← hEpoch, ← hRevision]
    · cases hNext
  · cases hNext

theorem decodeResponse_eq
    {protocol : WorkerProtocol}
    {method : SemanticWorkerMethod}
    {uri : Uri}
    {response : SemanticWorkerResponse}
    (hDecode :
      decodeSemanticWorkerResponseForMethod protocol method
        answer uri = some response) :
    answer = .response response := by
  cases answer with
  | ack ack => cases hDecode
  | malformed id => cases hDecode
  | response given =>
    simp only [decodeSemanticWorkerResponseForMethod] at hDecode
    split at hDecode
    · cases hDecode
      rfl
    · cases hDecode

theorem settleRequest_moves
    {next : Supervisor}
    (detached : Bool)
    (hFailure : supervisor.failure = none)
    (hRecord :
      supervisor.laneRequest detached
        = some (.request record))
    (hNext :
      settleRequest options supervisor record answer detached
        = some next) :
    Moves options (some answer) supervisor next := by
  unfold settleRequest at hNext
  split at hNext
  · cases hNext
  · rename_i wire hWire
    split at hNext
    · cases hNext
    · rename_i response hDecode
      split at hNext
      · rename_i hMatches
        cases hNext
        exact
          Moves.one
            (Move.answered hFailure hRecord hWire
              (decodeResponse_eq hDecode) hMatches)
      · cases hNext

theorem proceed_moves
    {settled : Option Supervisor}
    (hFailure : supervisor.failure = none)
    (hSettled :
      ∀ next,
        settled = some next →
        Moves options message supervisor next) :
    Moves options message supervisor
      (proceed options supervisor settled) := by
  cases settled with
  | none => exact Moves.one (Move.failed hFailure)
  | some next =>
    exact (hSettled next rfl).trans (pump_moves next)

theorem receive_moves
    (answer : WorkerMessage) :
    Moves options (some answer) supervisor
      (supervisor.receive options answer) := by
  unfold receive
  split
  · exact Moves.refl _
  · rename_i hNone
    have hFailure : supervisor.failure = none := by
      simpa using hNone
    split
    · rename_i record hDetached
      apply proceed_moves hFailure
      intro next hNext
      refine settleRequest_moves true hFailure ?_ hNext
      unfold answersDetached at hDetached
      split at hDetached
      · cases hDetached
      · rename_i lane hLane
        split at hDetached
        · cases hDetached
        · split at hDetached
          · cases hDetached
            simp [laneRequest, hLane]
          · cases hDetached
    · split
      · exact Moves.one (Move.failed hFailure)
      · rename_i record hActive
        apply proceed_moves hFailure
        intro next hNext
        exact acknowledge_moves hFailure hActive hNext
      · rename_i record hActive
        apply proceed_moves hFailure
        intro next hNext
        exact
          settleRequest_moves false hFailure
            (by simpa [laneRequest] using hActive) hNext

/- An error or an exit of the endpoint. -/
theorem fail_moves
    (supervisor : Supervisor) :
    Moves options message supervisor
      (supervisor.fail true) := by
  cases hFailure : supervisor.failure with
  | none => exact Moves.one (Move.failed hFailure)
  | some failure =>
    have hEq :
        supervisor.fail true
          = supervisor.settleActiveFailure failure := by
      simp [fail, hFailure]
    rw [hEq]
    exact Moves.one (Move.activeSettled hFailure)

theorem dispose_moves
    (supervisor : Supervisor) :
    Moves options message supervisor supervisor.dispose := by
  cases hFirst : supervisor.disposing with
  | true =>
    have hEq : supervisor.dispose = supervisor := by
      simp [dispose, hFirst]
    rw [hEq]
    exact Moves.refl _
  | false => exact Moves.one (Move.disposeCalled hFirst)

theorem failureContinues_moves
    (supervisor : Supervisor) :
    Moves options message supervisor
      supervisor.failureContinues := by
  unfold failureContinues
  split
  · rename_i hWaits
    exact Moves.one (Move.failureContinued hWaits.1)
  · exact Moves.refl _

theorem disposeContinues_moves
    (supervisor : Supervisor) :
    Moves options message supervisor
      supervisor.disposeContinues := by
  unfold disposeContinues
  split
  · exact Moves.refl _
  · rename_i hNot
    have hWaits : supervisor.disposeWaits = true := by
      simpa using hNot
    split
    · rename_i hEmpty
      exact Moves.one (Move.lanesAwaited hWaits hEmpty)
    · split
      · exact Moves.one (Move.deadlineSettled hWaits)
      · exact Moves.refl _

end Supervisor

----------
-- Runs
----------

/- The message that an event delivers. -/
def SupervisorEvent.message? :
    SupervisorEvent → Option WorkerMessage
| .message answer => some answer
| _ => none

/- Every step is a sequence of moves. -/
theorem supervisorStep_moves
    (options : SupervisorOptions)
    (supervisor : Supervisor)
    (event : SupervisorEvent) :
    Moves options event.message? supervisor
      (supervisorStep options supervisor event) := by
  cases event with
  | mutate input => exact Supervisor.mutate_moves input
  | request input => exact Supervisor.request_moves input
  | cancel promise reason =>
    exact Supervisor.cancelRequest_moves promise reason
  | message message => exact Supervisor.receive_moves message
  | endpointError => exact Supervisor.fail_moves supervisor
  | endpointExit => exact Supervisor.fail_moves supervisor
  | dispose => exact Supervisor.dispose_moves supervisor
  | terminated => exact Moves.one Move.terminated
  | deadlineElapsed => exact Moves.one Move.deadlineElapsed
  | failureContinues =>
    exact Supervisor.failureContinues_moves supervisor
  | disposeContinues =>
    exact Supervisor.disposeContinues_moves supervisor

/- What every move keeps holds after every run. -/
theorem supervisorRun_invariant
    {options : SupervisorOptions}
    {Inv : Supervisor → Prop}
    (hMove :
      ∀ message first second,
        Move options message first second →
        Inv first → Inv second)
    (hInitial : Inv {})
    (events : List SupervisorEvent) :
    Inv (supervisorRun options events) := by
  apply run_invariant
  · intro supervisor event hInv
    exact
      (supervisorStep_moves options supervisor event).invariant
        (hMove _) hInv
  · exact hInitial

end Semantic

end ArktsServer
