import ArktsServer.Lib.Transition
import ArktsServer.Semantic.MutationCoalescing
import ArktsServer.Semantic.RequestLanes
import Mathlib.Logic.Function.Basic

/-
  The supervisor of one root's semantic worker: queued
  mutations, pending reads, the command that is active, the
  detached references lane, and the ways it stops.

  A promise is a number, and the log keeps what the callers
  and the endpoint see of the supervisor.  Continuations
  that wait for the termination or for the deadline of the
  disposal are steps of their own.

  Key definitions include:
    * `Semantic.Supervisor`
    * `Semantic.Supervisor.mutate`
    * `Semantic.Supervisor.request`
    * `Semantic.Supervisor.pump`
    * `Semantic.Supervisor.receive`
    * `Semantic.Supervisor.fail`
    * `Semantic.Supervisor.dispose`
    * `Semantic.supervisorStep`
-/

namespace ArktsServer

namespace Semantic

open Transition

----------
-- State
----------

inductive CommandRecord where
| mutation (record : MutationRecord)
| request (record : RequestRecord)
deriving DecidableEq

def CommandRecord.promise : CommandRecord → Nat
| .mutation record => record.promise
| .request record => record.promise

/- How a promise settles. -/
inductive Settlement where
| acknowledged
| fulfilled (value : JsonText)
| rejected (code : SemanticWorkerErrorCode)
deriving DecidableEq

/- What is seen of the supervisor from outside. -/
inductive Observation where
| accepted
    (promise : Nat)
    (input : RootSemanticWorkerMutationInput)
| requested
    (promise : Nat)
    (input : RootSemanticWorkerRequestInput)
| settled (promise : Nat) (settlement : Settlement)
| sent (promise : Nat) (command : SemanticWorkerCommand)
| stopped
deriving DecidableEq

/-
  What the supervisor is built with.  `sendThrows` says
  which calls of the endpoint's `send` throw.
-/
structure SupervisorOptions where
  protocol : WorkerProtocol
  rootUri : Uri
  epoch : Nat
  sendThrows : Nat → Bool

structure Supervisor where
  pendingMutations : List MutationRecord := []
  pendingRequests : PendingReads := {}
  bypassedDiagnostic : Option RequestRecord := none
  active : Option CommandRecord := none
  detachedReference : Option RequestRecord := none
  appliedRevision : Nat := 0
  stateGeneration : Nat := 0
  queuedMutationTextBytes : Nat := 0
  nextRequestId : Nat := 1
  disposed : Bool := false
  failure : Option SemanticWorkerErrorCode := none
  disposing : Bool := false
  -- the continuations that wait for the termination or for
  -- the deadline
  failureWaits : Bool := false
  disposeWaits : Bool := false
  terminating : Bool := false
  terminated : Bool := false
  deadlineStarted : Bool := false
  deadlineElapsed : Bool := false
  cells : Nat → SemanticWorkerCancellationCell := fun _ => none
  nextPromise : Nat := 0
  sends : Nat := 0
  log : List Observation := []

namespace Supervisor

def maxQueuedMutationDocuments : Nat := 32

def maxQueuedMutationRecords : Nat := 32

def maxQueuedMutationTextBytes : Nat :=
  maxSemanticWorkerTextBytes

----------
-- Promises and Cells
----------

variable (supervisor : Supervisor)

def observe
    (observations : List Observation) :
    Supervisor :=
  { supervisor with
    log := supervisor.log ++ observations }

def settle
    (promise : Nat)
    (settlement : Settlement) :
    Supervisor :=
  supervisor.observe [.settled promise settlement]

/- Cancels the cells of requests, in order. -/
def cancelCells
    (reason : SemanticWorkerTerminalCancellationState)
    (promises : List Nat) :
    Supervisor :=
  { supervisor with
    cells := fun promise =>
      if promise ∈ promises then
        cancelCell (supervisor.cells promise) reason
      else
        supervisor.cells promise }

def rejections
    (code : SemanticWorkerErrorCode)
    (promises : List Nat) :
    List Observation :=
  promises.map fun promise => .settled promise (.rejected code)

/- The promise of the active command, if it is a request. -/
def activeRequest
    (supervisor : Supervisor) :
    List Nat :=
  match supervisor.active with
  | some (.request record) => [record.promise]
  | _ => []

def detachedRequest
    (supervisor : Supervisor) :
    List Nat :=
  match supervisor.detachedReference with
  | some record => [record.promise]
  | none => []

def pendingMutationPromises
    (supervisor : Supervisor) :
    List Nat :=
  supervisor.pendingMutations.map MutationRecord.promise

def pendingRequestPromises
    (supervisor : Supervisor) :
    List Nat :=
  supervisor.pendingRequests.records.map RequestRecord.promise

/- `drain` on the pending reads. -/
def drainRequests
    (supervisor : Supervisor) :
    Supervisor :=
  { supervisor with pendingRequests := {} }

----------
-- Failure
----------

/- The error of a command in a lane when the root fails. -/
def laneError
    (cell : SemanticWorkerCancellationCell)
    (failure : SemanticWorkerErrorCode) :
    SemanticWorkerErrorCode :=
  match cell with
  | some .clientCancelled => .clientCancelled
  | some .contentModified => .contentModified
  | _ => failure

/- `#settleActiveFailure`. -/
def settleActiveFailure
    (failure : SemanticWorkerErrorCode) :
    Supervisor :=
  match supervisor.active with
  | none => supervisor
  | some (.mutation record) =>
      { supervisor with active := none }.settle
        record.promise (.rejected failure)
  | some (.request record) =>
      { supervisor with active := none }.settle record.promise
        (.rejected
          (laneError (supervisor.cells record.promise) failure))

/- `#settleDetachedFailure`. -/
def settleDetachedFailure
    (failure : SemanticWorkerErrorCode) :
    Supervisor :=
  match supervisor.detachedReference with
  | none => supervisor
  | some record =>
      { supervisor with detachedReference := none }.settle
        record.promise
        (.rejected
          (laneError (supervisor.cells record.promise) failure))

def settleLanes
    (failure : SemanticWorkerErrorCode) :
    Supervisor :=
  (supervisor.settleActiveFailure failure).settleDetachedFailure
    failure

/-
  The common part of the failures and of the disposal: the
  lanes are told, and everything that waits is rejected.
-/
def abandonQueues
    (error : SemanticWorkerErrorCode) :
    Supervisor :=
  let told :=
    supervisor.cancelCells .supervisorDisposing
      (supervisor.activeRequest ++ supervisor.detachedRequest
        ++ supervisor.pendingRequestPromises)
  let stopped :=
    told.observe
      (.stopped
        :: rejections error
          (supervisor.pendingMutationPromises
            ++ supervisor.pendingRequestPromises))
  { stopped.drainRequests with
    disposed := true
    pendingMutations := []
    queuedMutationTextBytes := 0 }

/- `#terminateWithinDeadline` begins. -/
def terminateWithinDeadline
    (supervisor : Supervisor) :
    Supervisor :=
  { supervisor with
    terminating := true
    deadlineStarted := true }

def shutDown
    (failure : SemanticWorkerErrorCode) :
    Supervisor :=
  { (supervisor.abandonQueues failure).terminateWithinDeadline with
    failure := some failure }

def fail
    (endpointTerminal : Bool) :
    Supervisor :=
  match supervisor.failure with
  | some failure =>
      if endpointTerminal then
        supervisor.settleActiveFailure failure
      else
        supervisor
  | none =>
      let failed := supervisor.shutDown .workerUnavailable
      if endpointTerminal then
        failed.settleLanes .workerUnavailable
      else
        { failed with failureWaits := true }

def beginFatalShutdown
    (failure : SemanticWorkerErrorCode) :
    Supervisor :=
  match supervisor.failure with
  | some _ => supervisor
  | none =>
      { supervisor.shutDown failure with failureWaits := true }

/- A promise of its own that is rejected at once. -/
def rejectedPromise
    (code : SemanticWorkerErrorCode) :
    Supervisor :=
  { supervisor with
    nextPromise := supervisor.nextPromise + 1 }.settle
      supervisor.nextPromise (.rejected code)

def rejectMutationAndRestart
    (supervisor : Supervisor) :
    Supervisor × Except SemanticWorkerErrorCode Nat :=
  ((supervisor.rejectedPromise .restartRequired).beginFatalShutdown
      .restartRequired,
    .ok supervisor.nextPromise)

----------
-- Pump
----------

/- `endpoint.send`, which may throw. -/
def send
    (options : SupervisorOptions)
    (promise : Nat)
    (command : SemanticWorkerCommand) :
    Option Supervisor :=
  if options.sendThrows supervisor.sends then
    none
  else
    some
      ({ supervisor with
        sends := supervisor.sends + 1 }.observe
          [.sent promise command])

variable (options : SupervisorOptions)

/- The branch of `#pump` for a mutation. -/
def pumpMutation
    (supervisor : Supervisor)
    (record : MutationRecord) :
    Supervisor :=
  match wireMutation options.protocol options.epoch
      (supervisor.appliedRevision + 1) record.input with
  | .error _ =>
      { supervisor with
        active := some (.mutation record) }.fail false
  | .ok wire =>
      let active :=
        { supervisor with
          active :=
            some (.mutation { record with wire := some wire }) }
      match active.send options record.promise
          (.mutation wire) with
      | none =>
          { active with sends := active.sends + 1 }.fail false
      | some sent => sent

def wireRequest
    (options : SupervisorOptions)
    (input : RootSemanticWorkerRequestInput) :
    SemanticWorkerRequest :=
  { epoch := options.epoch
    id := supervisor.nextRequestId
    requiredRevision := supervisor.appliedRevision
    input := input }

/-
  The lane of a request.  `none` is the error of a busy
  detached lane.
-/
def enterLane
    (record : RequestRecord) :
    Option Supervisor :=
  if record.input.method = .references then
    if supervisor.detachedReference.isSome then
      none
    else
      some { supervisor with detachedReference := some record }
  else
    some { supervisor with active := some (.request record) }

/-
  The branch of `#pump` for a request.  The flag says that
  the request has been sent.
-/
def pumpRequest
    (supervisor : Supervisor)
    (record : RequestRecord) :
    Supervisor × Bool :=
  let wire := supervisor.wireRequest options record.input
  let numbered :=
    { supervisor with
      nextRequestId := supervisor.nextRequestId + 1 }
  match numbered.enterLane { record with wire := some wire } with
  | none => (numbered.fail false, false)
  | some entered =>
      match entered.send options record.promise
          (.request wire) with
      | none =>
          ({ entered with sends := entered.sends + 1 }.fail false,
            false)
      | some sent => (sent, true)

/- A request whose generation has passed is rejected. -/
def rejectStale
    (record : RequestRecord) :
    Supervisor :=
  (supervisor.cancelCells .contentModified
    [record.promise]).settle record.promise
      (.rejected .contentModified)

/- `#pump`; the fuel counts the pending requests. -/
def pumpLoop
    (options : SupervisorOptions) :
    Nat → Supervisor → Supervisor
| 0, supervisor => supervisor
| fuel + 1, supervisor =>
    if supervisor.active.isSome ∨ supervisor.disposed then
      supervisor
    else
      match supervisor.pendingMutations with
      | record :: records =>
          pumpMutation options
            { supervisor with
              pendingMutations := records
              queuedMutationTextBytes :=
                supervisor.queuedMutationTextBytes
                  - record.textBytes }
            record
      | [] =>
          let selection :=
            supervisor.pendingRequests.take
              supervisor.detachedReference.isSome
              supervisor.bypassedDiagnostic
          let taken :=
            { supervisor with
              pendingRequests := selection.2.2
              bypassedDiagnostic := selection.2.1 }
          match selection.1 with
          | none => taken
          | some record =>
              if record.stateGeneration
                  ≠ supervisor.stateGeneration then
                pumpLoop options fuel (taken.rejectStale record)
              else
                let pumped := pumpRequest options taken record
                if record.input.method = .references
                    ∧ pumped.2 then
                  pumpLoop options fuel pumped.1
                else
                  pumped.1

def pump
    (supervisor : Supervisor) :
    Supervisor :=
  pumpLoop options
    (supervisor.pendingRequests.records.length + 1) supervisor

----------
-- Mutations
----------

/- `#invalidateRequests`. -/
def invalidateRequests
    (supervisor : Supervisor) :
    Supervisor :=
  let told :=
    supervisor.cancelCells .contentModified
      (supervisor.activeRequest ++ supervisor.detachedRequest
        ++ supervisor.pendingRequestPromises)
  (told.observe
    (rejections .contentModified
      supervisor.pendingRequestPromises)).drainRequests

def assertAvailable
    (supervisor : Supervisor) :
    Except SemanticWorkerErrorCode Unit :=
  match supervisor.failure with
  | some failure => .error failure
  | none =>
      if supervisor.disposed then
        .error .workerUnavailable
      else
        .ok ()

def isSemanticWorkerUriWithinRoot
    (uri : Uri) :
    Bool :=
  options.protocol.isCanonicalSemanticWorkerFileUri uri
    && options.protocol.isCanonicalSemanticWorkerFileUri
      options.rootUri
    && options.protocol.isUriWithinRoot uri options.rootUri

/- `assertMutationTargetsRoot`. -/
def mutationTargetsRoot
    (options : SupervisorOptions) :
    RootSemanticWorkerMutationInput → Bool
| .workspaceFilesChanged files =>
    files.rootUri = options.rootUri
| .document mutation =>
    (decodeDocumentMutation options.protocol 1 1
        ⟨.closed, mutation.uri, mutation.documentVersion, []⟩
      ).isOk
      && isSemanticWorkerUriWithinRoot options mutation.uri

def workspaceMutationExceedsFileChangeBound :
    RootSemanticWorkerMutationInput → Bool
| .workspaceFilesChanged files =>
    maxSemanticWorkerFileChanges < files.changes.length
| .document _ => false

/- `assertOverboundWorkspaceMutationStructure`. -/
def overboundStructure
    (options : SupervisorOptions) :
    RootSemanticWorkerMutationInput → Bool
| .workspaceFilesChanged files =>
    files.rootUri = options.rootUri
      && options.protocol.isCanonicalSemanticWorkerFileUri
        files.rootUri
      && !(files.configurationChanged = some true
        && !files.rootDirty)
      && !(files.resourceDirty && !files.resourceChanged)
      && files.changes.all fun change =>
        options.protocol.isCanonicalSemanticWorkerFileUri
            change.uri
          && isSemanticWorkerUriWithinRoot options change.uri
| .document _ => true

def mutationExceedsTransportBounds
    (input : RootSemanticWorkerMutationInput) :
    Bool :=
  maxSemanticWorkerTextBytes < mutationTextBytes input
    || workspaceMutationExceedsFileChangeBound input

/- The checks of `mutate` before the queue is looked at. -/
inductive MutationCheck where
| invalid
| restart
| canonical (input : RootSemanticWorkerMutationInput)

def checkMutation
    (input : RootSemanticWorkerMutationInput) :
    MutationCheck :=
  if !mutationTargetsRoot options input then
    .invalid
  else if workspaceMutationExceedsFileChangeBound input
      && !overboundStructure options input then
    .invalid
  else if mutationExceedsTransportBounds input then
    .restart
  else
    match canonicalMutationInput options.protocol
        options.epoch input with
    | .error _ => .invalid
    | .ok snapshot =>
        if mutationTargetsRoot options snapshot then
          .canonical snapshot
        else
          .invalid

variable (existing : Option MutationRecord)

/- The merged input, where a record takes the mutation up. -/
def nextSnapshot
    (snapshot : RootSemanticWorkerMutationInput) :
    Except SemanticWorkerProtocolError
      RootSemanticWorkerMutationInput :=
  match existing with
  | none => .ok snapshot
  | some record =>
      mergeMutations options.protocol options.epoch
        record.input snapshot

/- The bytes of the queue once the mutation is in it. -/
def nextTextBytes
    (next : RootSemanticWorkerMutationInput) :
    Nat :=
  supervisor.queuedMutationTextBytes
    - (existing.map MutationRecord.textBytes).getD 0
    + mutationTextBytes next

def queuedDocumentCount
    (snapshot : RootSemanticWorkerMutationInput) :
    Nat :=
  supervisor.pendingMutations.countP
      (fun record => record.documentKey.isSome)
    + (snapshot.documentKey.isSome && existing.isNone).toNat

def queuedRecordCount
    (existing : Option MutationRecord) :
    Nat :=
  supervisor.pendingMutations.length + existing.isNone.toNat

def exceedsQueueBounds
    (snapshot next : RootSemanticWorkerMutationInput) :
    Bool :=
  maxQueuedMutationDocuments
      < supervisor.queuedDocumentCount existing snapshot
    || maxQueuedMutationRecords
      < supervisor.queuedRecordCount existing
    || maxQueuedMutationTextBytes
      < supervisor.nextTextBytes existing next

/- The queue with the mutation as a record of its own. -/
def pushMutation
    (snapshot : RootSemanticWorkerMutationInput) :
    Supervisor :=
  let record : MutationRecord :=
    { promise := supervisor.nextPromise
      input := snapshot
      documentKey := snapshot.documentKey
      textBytes := mutationTextBytes snapshot }
  { supervisor with
    queuedMutationTextBytes :=
      supervisor.nextTextBytes none snapshot
    pendingMutations := supervisor.pendingMutations ++ [record]
    nextPromise := supervisor.nextPromise + 1 }.observe
      [.accepted supervisor.nextPromise snapshot]

/- The record of the promise gets the merged input. -/
def takeUp
    (promise : Nat)
    (next : RootSemanticWorkerMutationInput)
    (record : MutationRecord) :
    MutationRecord :=
  if record.promise = promise then
    { record with
      input := next
      textBytes := mutationTextBytes next }
  else
    record

/- The queue with the mutation taken up by a record. -/
def joinMutation
    (existing : MutationRecord)
    (snapshot next : RootSemanticWorkerMutationInput) :
    Supervisor :=
  { supervisor with
    queuedMutationTextBytes :=
      supervisor.nextTextBytes (some existing) next
    pendingMutations :=
      supervisor.pendingMutations.map
        (takeUp existing.promise next) }.observe
      [.accepted existing.promise snapshot]

def nextGeneration
    (supervisor : Supervisor) :
    Supervisor :=
  { supervisor with
    stateGeneration :=
      supervisor.stateGeneration + 1 }.invalidateRequests

/- The part of `mutate` behind the checks. -/
def acceptMutation
    (supervisor : Supervisor)
    (snapshot : RootSemanticWorkerMutationInput) :
    Supervisor × Except SemanticWorkerErrorCode Nat :=
  let existing :=
    findCoalescingMutation supervisor.pendingMutations snapshot
  match nextSnapshot options existing snapshot with
  | .error _ => supervisor.rejectMutationAndRestart
  | .ok next =>
      if supervisor.exceedsQueueBounds existing
          snapshot next then
        supervisor.rejectMutationAndRestart
      else
        match existing with
        | none =>
            (pump options
                (supervisor.nextGeneration.pushMutation snapshot),
              .ok supervisor.nextPromise)
        | some record =>
            (pump options
                (supervisor.nextGeneration.joinMutation record
                  snapshot next),
              .ok record.promise)

def mutate
    (supervisor : Supervisor)
    (input : RootSemanticWorkerMutationInput) :
    Supervisor × Except SemanticWorkerErrorCode Nat :=
  match supervisor.assertAvailable with
  | .error code => (supervisor, .error code)
  | .ok () =>
      match checkMutation options input with
      | .invalid => (supervisor, .error .invalidRequest)
      | .restart => supervisor.rejectMutationAndRestart
      | .canonical snapshot =>
          acceptMutation options supervisor snapshot

----------
-- Requests
----------

/- The request is for this root. -/
def requestTargetsRoot
    (input : RootSemanticWorkerRequestInput) :
    Bool :=
  isSemanticWorkerUriWithinRoot options input.uri
    && !(input.method = .semanticReadiness
      && (input.uri ≠ options.rootUri
        || input.expectedDocumentVersion ≠ none))

/- The record of a new request. -/
def newRequest
    (input : RootSemanticWorkerRequestInput) :
    RequestRecord :=
  { promise := supervisor.nextPromise
    input := input
    stateGeneration := supervisor.stateGeneration }

/- A request with its place in the pending reads. -/
def enqueueRequest
    (reads : PendingReads)
    (input : RootSemanticWorkerRequestInput) :
    Supervisor :=
  { supervisor with
    pendingRequests := reads
    nextPromise := supervisor.nextPromise + 1 }.observe
      [.requested supervisor.nextPromise input]

def request
    (supervisor : Supervisor)
    (input : RootSemanticWorkerRequestInput) :
    Supervisor × Except SemanticWorkerErrorCode Nat :=
  match supervisor.assertAvailable with
  | .error code => (supervisor, .error code)
  | .ok () =>
      if !canonicalRequestInput options.protocol input
          || !requestTargetsRoot options input then
        (supervisor, .error .invalidRequest)
      else
        match supervisor.pendingRequests.add options.protocol
            (supervisor.newRequest input) with
        | none =>
            (supervisor.rejectedPromise .queueOverflow,
              .ok supervisor.nextPromise)
        | some reads =>
            (pump options (supervisor.enqueueRequest reads input),
              .ok supervisor.nextPromise)

/- The request is in one of the two lanes. -/
def inLane
    (promise : Nat) :
    Bool :=
  promise ∈ supervisor.activeRequest
    ∨ promise ∈ supervisor.detachedRequest

/- `#cancelRequest`, through the handle of a promise. -/
def cancelRequest
    (promise : Nat)
    (reason : SemanticWorkerTerminalCancellationState) :
    Supervisor :=
  if supervisor.nextPromise ≤ promise then
    supervisor
  else
    let cancelled := supervisor.cancelCells reason [promise]
    let winner := (supervisor.cells promise).getD reason
    if supervisor.inLane promise then
      cancelled
    else
      match supervisor.pendingRequests.records.find?
          (fun record => record.promise = promise) with
      | none => cancelled
      | some record =>
          match supervisor.pendingRequests.remove record with
          | none => cancelled
          | some reads =>
              { cancelled with pendingRequests := reads }.settle
                promise (.rejected (cancellationError winner))

----------
-- Messages
----------

/- The checks of `#settleRequest` on a response. -/
def matchesRequest
    (wire : SemanticWorkerRequest)
    (response : SemanticWorkerResponse) :
    Bool :=
  response.epoch = options.epoch
    && response.id = wire.id
    && response.appliedRevision = wire.requiredRevision
    && response.documentVersion
      = wire.input.expectedDocumentVersion

/- How a request settles with its response. -/
def responseSettlement
    (cell : SemanticWorkerCancellationCell)
    (response : SemanticWorkerResponse) :
    Settlement :=
  match cell with
  | some reason => .rejected (cancellationError reason)
  | none =>
      match response.result with
      | .ok value => .fulfilled value
      | .error code => .rejected code

/-
  `#settleRequest`.  `none` is one of its errors, all thrown
  before the state changes.
-/
def settleRequest
    (supervisor : Supervisor)
    (record : RequestRecord)
    (message : WorkerMessage)
    (detached : Bool) :
    Option Supervisor :=
  match record.wire with
  | none => none
  | some wire =>
      match decodeSemanticWorkerResponseForMethod
          options.protocol wire.input.method message
          wire.input.uri with
      | none => none
      | some response =>
          if matchesRequest options wire response then
            let cleared :=
              if detached then
                { supervisor with detachedReference := none }
              else
                { supervisor with active := none }
            some
              (cleared.settle record.promise
                (responseSettlement
                  (supervisor.cells record.promise) response))
          else
            none

/- The acknowledgement of the active mutation. -/
def acknowledge
    (supervisor : Supervisor)
    (record : MutationRecord)
    (message : WorkerMessage) :
    Option Supervisor :=
  match message, record.wire with
  | .ack ack, some wire =>
      if ack.epoch = options.epoch
          ∧ ack.appliedRevision = wire.revision then
        some
          ({ supervisor with
            appliedRevision := ack.appliedRevision
            active := none }.settle record.promise .acknowledged)
      else
        none
  | _, _ => none

/- The message answers the request of the detached lane. -/
def answersDetached
    (message : WorkerMessage) :
    Option RequestRecord :=
  match supervisor.detachedReference with
  | none => none
  | some record =>
      match record.wire with
      | none => none
      | some wire =>
          if requestResponseId message = some wire.id then
            some record
          else
            none

/- The rest of `#receive`: pump, or fail on an error. -/
def proceed
    (supervisor : Supervisor)
    (settled : Option Supervisor) :
    Supervisor :=
  match settled with
  | none => supervisor.fail false
  | some next => pump options next

def receive
    (supervisor : Supervisor)
    (message : WorkerMessage) :
    Supervisor :=
  if supervisor.failure.isSome then
    supervisor
  else
    match supervisor.answersDetached message with
    | some record =>
        proceed options supervisor
          (settleRequest options supervisor record message true)
    | none =>
        match supervisor.active with
        | none => supervisor.fail false
        | some (.mutation record) =>
            proceed options supervisor
              (acknowledge options supervisor record message)
        | some (.request record) =>
            proceed options supervisor
              (settleRequest options supervisor record
                message false)

----------
-- Disposal
----------

def lanesEmpty
    (supervisor : Supervisor) :
    Bool :=
  supervisor.active.isNone
    && supervisor.detachedReference.isNone

/- `dispose`, with `#disposeActive` up to its first await. -/
def dispose
    (supervisor : Supervisor) :
    Supervisor :=
  if supervisor.disposing then
    supervisor
  else
    let abandoned :=
      { supervisor.abandonQueues .workerUnavailable with
        disposing := true }
    if supervisor.lanesEmpty then
      abandoned.terminateWithinDeadline
    else
      { abandoned with
        disposeWaits := true
        deadlineStarted := true }

/- What follows on the termination in a failure. -/
def failureContinues
    (supervisor : Supervisor) :
    Supervisor :=
  if supervisor.failureWaits
      ∧ (supervisor.terminated ∨ supervisor.deadlineElapsed) then
    { supervisor with failureWaits := false }.settleLanes
      (supervisor.failure.getD .workerUnavailable)
  else
    supervisor

/-
  `#disposeActive` behind its await: the lanes have become
  empty, or the deadline has elapsed.
-/
def disposeContinues
    (supervisor : Supervisor) :
    Supervisor :=
  if !supervisor.disposeWaits then
    supervisor
  else if supervisor.lanesEmpty then
    { supervisor with
      disposeWaits := false }.terminateWithinDeadline
  else if supervisor.deadlineElapsed then
    { supervisor with
      disposeWaits := false
      terminating := true }.settleLanes .workerUnavailable
  else
    supervisor

end Supervisor

----------
-- Steps
----------

/- What happens to the supervisor, in any order. -/
inductive SupervisorEvent where
| mutate (input : RootSemanticWorkerMutationInput)
| request (input : RootSemanticWorkerRequestInput)
| cancel
    (promise : Nat)
    (reason : SemanticWorkerTerminalCancellationState)
| message (message : WorkerMessage)
| endpointError
| endpointExit
| dispose
| terminated
| deadlineElapsed
| failureContinues
| disposeContinues
deriving DecidableEq

def supervisorStep
    (options : SupervisorOptions)
    (supervisor : Supervisor) :
    SupervisorEvent → Supervisor
| .mutate input => (supervisor.mutate options input).1
| .request input => (supervisor.request options input).1
| .cancel promise reason =>
    supervisor.cancelRequest promise reason
| .message message => supervisor.receive options message
| .endpointError => supervisor.fail true
| .endpointExit => supervisor.fail true
| .dispose => supervisor.dispose
| .terminated =>
    { supervisor with
      terminated :=
        supervisor.terminated || supervisor.terminating }
| .deadlineElapsed =>
    { supervisor with
      deadlineElapsed :=
        supervisor.deadlineElapsed
          || supervisor.deadlineStarted }
| .failureContinues => supervisor.failureContinues
| .disposeContinues => supervisor.disposeContinues

def supervisorRun
    (options : SupervisorOptions)
    (events : List SupervisorEvent) :
    Supervisor :=
  run (supervisorStep options) {} events

end Semantic

end ArktsServer
