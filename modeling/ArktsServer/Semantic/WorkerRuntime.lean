import ArktsServer.Semantic.WorkerSupervisor

/-
  The runtime of the semantic worker, and the supervisor
  with its worker behind the endpoint.

  The runtime takes the commands in the order in which they
  were sent, one at a time; a references request runs beside
  the commands that follow it.  What the engine computes is
  a function of the request and of everything that the
  worker had applied while the request ran.

  Key definitions include:
    * `Semantic.applyDocument`
    * `Semantic.WorkerRuntime`
    * `Semantic.WorkerRuntime.dispatch`
    * `Semantic.SemanticWorld`
    * `Semantic.worldStep`
-/

namespace ArktsServer

namespace Semantic

open Transition

----------
-- Documents
----------

structure OpenDocument where
  version : Nat
  text : CodeUnits
deriving DecidableEq

/- The `documents` map of the worker. -/
abbrev DocumentTable := Uri → Option OpenDocument

/- What `applyMutation` does to the document table. -/
def applyDocument
    (table : DocumentTable) :
    RootSemanticWorkerMutationInput → DocumentTable
| .workspaceFilesChanged _ => table
| .document mutation =>
    if mutation.kind = .closed then
      Function.update table mutation.uri none
    else
      Function.update table mutation.uri
        (some ⟨mutation.documentVersion, mutation.text⟩)

/- The table after mutations, applied one by one. -/
def applyDocuments
    (table : DocumentTable)
    (inputs : List RootSemanticWorkerMutationInput) :
    DocumentTable :=
  inputs.foldl applyDocument table

def noDocuments : DocumentTable := fun _ => none

----------
-- Runtime
----------

/-
  What the engine has been given: the mutations applied so
  far, in order.
-/
abbrev WorkerHistory := List RootSemanticWorkerMutationInput

/-
  A request that is running, with the histories that it has
  run under, from the one it was dispatched in.
-/
structure Evaluation where
  request : SemanticWorkerRequest
  seen : List WorkerHistory
deriving DecidableEq

structure WorkerRuntime where
  documents : DocumentTable := noDocuments
  applied : WorkerHistory := []
  appliedRevision : Nat := 0
  current : Option Evaluation := none
  references : List Evaluation := []
  failed : Bool := false

/-
  The engine: the result of a request that ran under some
  histories.
-/
abbrev Engine :=
  SemanticWorkerRequest → List WorkerHistory → JsonText

namespace WorkerRuntime

/- A history that the running requests see from now on. -/
def Evaluation.see
    (history : WorkerHistory)
    (evaluation : Evaluation) :
    Evaluation :=
  { evaluation with seen := evaluation.seen ++ [history] }

/- `applyMutation`, with its acknowledgement. -/
def applyMutation
    (runtime : WorkerRuntime)
    (mutation : SemanticWorkerMutation) :
    WorkerRuntime × List WorkerMessage :=
  if mutation.revision ≠ runtime.appliedRevision + 1 then
    ({ runtime with failed := true }, [])
  else
    let applied := runtime.applied ++ [mutation.input]
    ({ runtime with
        documents :=
          applyDocument runtime.documents mutation.input
        applied := applied
        appliedRevision := mutation.revision
        references :=
          runtime.references.map (Evaluation.see applied) },
      [.ack ⟨mutation.epoch, mutation.revision⟩])

variable (request : SemanticWorkerRequest)

/- `workerRequestDocument`; a disk text has version 0. -/
def workerRequestDocument
    (opened : Option OpenDocument) :
    Option OpenDocument :=
  match request.input.diskSource with
  | none => opened
  | some text =>
      if opened.isSome then
        none
      else
        some ⟨0, text⟩

/- The document does not suit the request. -/
def contentModified
    (runtime : WorkerRuntime)
    (rootUri : Uri)
    (request : SemanticWorkerRequest) :
    Bool :=
  if request.input.method = .semanticReadiness then
    request.input.uri ≠ rootUri
      || request.input.expectedDocumentVersion ≠ none
  else
    match workerRequestDocument request
        (runtime.documents request.input.uri) with
    | none => true
    | some document =>
        match request.input.expectedDocumentVersion with
        | none => false
        | some version => document.version ≠ version

def postError
    (code : SemanticWorkerErrorCode) :
    WorkerMessage :=
  .response
    { epoch := request.epoch
      id := request.id
      appliedRevision := request.requiredRevision
      documentVersion := request.input.expectedDocumentVersion
      result := .error code }

def postValue
    (value : JsonText) :
    WorkerMessage :=
  .response
    { epoch := request.epoch
      id := request.id
      appliedRevision := request.requiredRevision
      documentVersion := request.input.expectedDocumentVersion
      result := .ok value }

/- `answerRequest` up to the call of the engine. -/
def startRequest
    (runtime : WorkerRuntime)
    (rootUri : Uri)
    (request : SemanticWorkerRequest) :
    WorkerRuntime × List WorkerMessage :=
  if runtime.appliedRevision ≠ request.requiredRevision then
    (runtime, [postError request .restartRequired])
  else if runtime.contentModified rootUri request then
    (runtime, [postError request .contentModified])
  else
    let evaluation : Evaluation :=
      { request := request
        seen := [runtime.applied] }
    if request.input.method = .references then
      ({ runtime with
          references := runtime.references ++ [evaluation] },
        [])
    else
      ({ runtime with current := some evaluation }, [])

/- `dispatch` on the next command of the queue. -/
def dispatch
    (runtime : WorkerRuntime)
    (rootUri : Uri) :
    SemanticWorkerCommand →
      WorkerRuntime × List WorkerMessage
| .mutation mutation => runtime.applyMutation mutation
| .request request => runtime.startRequest rootUri request

/-
  The end of a running request: the engine's value, or an
  error, which a cancellation may have caused.
-/
def terminal
    (engine : Engine)
    (evaluation : Evaluation) :
    Option SemanticWorkerErrorCode → WorkerMessage
| none =>
    postValue evaluation.request
      (engine evaluation.request evaluation.seen)
| some code => postError evaluation.request code

end WorkerRuntime

----------
-- World
----------

def Observation.command? :
    Observation → Option SemanticWorkerCommand
| .sent _ command => some command
| _ => none

/- The commands that went to the endpoint, in order. -/
def sentCommands
    (log : List Observation) :
    List SemanticWorkerCommand :=
  log.filterMap Observation.command?

/-
  A supervisor and its worker.  `received` counts the
  commands that the worker has taken, and `replies` are the
  messages on their way back.
-/
structure SemanticWorld where
  supervisor : Supervisor := {}
  runtime : WorkerRuntime := {}
  received : Nat := 0
  replies : List WorkerMessage := []

inductive WorldEvent where
| supervisor (event : SupervisorEvent)
| dispatch
| finishCurrent (error : Option SemanticWorkerErrorCode)
| finishReferences
    (index : Nat)
    (error : Option SemanticWorkerErrorCode)
| deliver
deriving DecidableEq

namespace SemanticWorld

/- The worker takes its next command, if it is free to. -/
def dispatch
    (options : SupervisorOptions)
    (world : SemanticWorld) :
    SemanticWorld :=
  if world.runtime.failed ∨ world.runtime.current.isSome then
    world
  else
    match (sentCommands world.supervisor.log)[world.received]?
      with
    | none => world
    | some command =>
        let dispatched :=
          world.runtime.dispatch options.rootUri command
        { world with
          runtime := dispatched.1
          received := world.received + 1
          replies := world.replies ++ dispatched.2 }

def finishCurrent
    (engine : Engine)
    (world : SemanticWorld)
    (error : Option SemanticWorkerErrorCode) :
    SemanticWorld :=
  match world.runtime.current with
  | none => world
  | some evaluation =>
      { world with
        runtime := { world.runtime with current := none }
        replies :=
          world.replies
            ++ [WorkerRuntime.terminal engine evaluation
              error] }

def finishReferences
    (engine : Engine)
    (world : SemanticWorld)
    (index : Nat)
    (error : Option SemanticWorkerErrorCode) :
    SemanticWorld :=
  match world.runtime.references[index]? with
  | none => world
  | some evaluation =>
      { world with
        runtime :=
          { world.runtime with
            references :=
              world.runtime.references.eraseIdx index }
        replies :=
          world.replies
            ++ [WorkerRuntime.terminal engine evaluation
              error] }

/- The next message of the worker arrives. -/
def deliver
    (options : SupervisorOptions)
    (world : SemanticWorld) :
    SemanticWorld :=
  match world.replies with
  | [] => world
  | message :: messages =>
      { world with
        replies := messages
        supervisor :=
          world.supervisor.receive options message }

end SemanticWorld

/-
  The supervisor's own events, other than messages, come in
  any order with the steps of the worker and its replies.
-/
def worldStep
    (options : SupervisorOptions)
    (engine : Engine)
    (world : SemanticWorld) :
    WorldEvent → SemanticWorld
| .supervisor (.message _) => world
| .supervisor event =>
    { world with
      supervisor :=
        supervisorStep options world.supervisor event }
| .dispatch => world.dispatch options
| .finishCurrent error => world.finishCurrent engine error
| .finishReferences index error =>
    world.finishReferences engine index error
| .deliver => world.deliver options

def worldRun
    (options : SupervisorOptions)
    (engine : Engine)
    (events : List WorldEvent) :
    SemanticWorld :=
  run (worldStep options engine) {} events

end Semantic

end ArktsServer
