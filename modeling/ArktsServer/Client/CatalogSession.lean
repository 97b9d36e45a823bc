import ArktsServer.Client.CatalogRun
import ArktsServer.Sidecar.Cancellation

/-
  One accepted catalog with all its parties: the worker, the
  channel of its updates, the request loop of the sidecar,
  the pipes in both directions and the client.

  The client handles an event when it reads its line.  The
  answer to a request is only resolved then; what waits for
  it continues later, behind the other lines of the chunk.

  Key definitions include:
    * `Client.CatalogSession`
    * `Client.CatalogSession.start`
    * `Client.CatalogSession.step`
    * `Client.CatalogSession.Conforming`
-/

----------
-- The Session
----------

namespace ArktsServer

namespace Client

open Sidecar SharedCell

/- A resolved request whose continuation has not run. -/
inductive Continuation where
| start (response : Json)
| cancel (response : Json)

/- A line of the sidecar's output. -/
inductive Line where
| response (continuation : Continuation)
| event (event : Json)

/-
  `received` counts the updates that the request loop has
  taken from the channel; `calling` is the cancel call in
  which it is blocked.
-/
structure CatalogSession where
  catalog : CatalogSystem
  received : Nat
  runtime : Runtime
  calling : Option (Nat × Nat)
  now : Nat
  stdout : List Line
  continuations : List Continuation
  workspaceIdentity : String
  client : CatalogRun
  failure : Option String

/- The event that the sidecar writes. -/
def catalogProgressEvent
    (runtime : Runtime)
    (now : Nat) : Json :=
  .obj
    [("protocol", .num 1),
      ("event", .str "catalog/progress"),
      ("params",
        .obj
          [("workspaceIdentity",
              .ofOption .str runtime.workspaceIdentity),
            ("status", runtime.status now)])]

namespace CatalogSession

/- The start request is accepted and its worker spawned. -/
def start
    (world : World)
    (idle : Runtime)
    (script : WorkerScript) : Option CatalogSession :=
  match idle.catalog, idle.startCatalog world with
  | none, (runtime, Except.ok (response, _)) =>
      match runtime.catalog with
      | none => none
      | some generation =>
          some
            { catalog :=
                CatalogSystem.start generation
                  idle.committedGeneration script
              received := 0
              runtime
              calling := none
              now := world.now
              stdout := [.response (.start response)]
              continuations := []
              workspaceIdentity :=
                runtime.workspaceIdentity.getD ""
              client := {}
              failure := none }
  | _, _ => none

inductive Move where
| worker
| panic
| tick (elapsed : Nat)
| receive
| heartbeat
| request
| caller
| read
| resume
| abort

variable (world : World)
variable (generation : Nat)
variable (session : CatalogSession)

def writeEvent : CatalogSession :=
  { session with
    stdout :=
      session.stdout ++
        [.event
          (catalogProgressEvent session.runtime
            session.now)] }

/- The request loop takes an update from the channel. -/
def receive : CatalogSession :=
  if session.calling.isSome then
    session
  else
    match (sentUpdates session.catalog.history)[
        session.received]? with
    | none => session
    | some update =>
        let handled := session.runtime.handleCatalogUpdate update
        let next :=
          { session with
            received := session.received + 1
            runtime := handled.1 }
        if handled.2 then next.writeEvent else next

def heartbeat : CatalogSession :=
  if session.calling.isNone ∧
      session.runtime.catalog.isSome then
    session.writeEvent
  else
    session

/- The answer to a cancel request. -/
def answerCancel
    (requested : Nat)
    (cancelled : Bool) : CatalogSession :=
  let handled :=
    session.runtime.cancelCatalog
      { world with now := session.now, cancel := cancelled }
      ⟨requested⟩
  match handled.2 with
  | Except.ok (response, _) =>
      { session with
        runtime := handled.1
        calling := none
        stdout :=
          session.stdout ++ [.response (.cancel response)] }
  | Except.error _ =>
      { session with runtime := handled.1, calling := none }

/- The request loop takes a cancel request. -/
def request : CatalogSession :=
  if session.calling.isSome then
    session
  else
    match session.client.cancelRequests with
    | [] => session
    | requested :: rest =>
        let next :=
          { session with
            client :=
              { session.client with cancelRequests := rest } }
        if session.runtime.catalog = some requested then
          { next with
            catalog :=
              session.catalog.step generation .call
            calling :=
              some (session.catalog.callers.length, requested) }
        else
          next.answerCancel world requested false

/- The cancel call goes on, or returns to the loop. -/
def caller : CatalogSession :=
  match session.calling with
  | none => session
  | some (index, requested) =>
      match session.catalog.callers[index]? with
      | some (.done cancelled) =>
          session.answerCancel world requested cancelled
      | _ =>
          { session with
            catalog :=
              session.catalog.step generation (.caller index) }

/- The outcome of a client step. -/
def settle (outcome : RunStep) : CatalogSession :=
  match outcome with
  | Except.ok client => { session with client }
  | Except.error (client, message) =>
      { session with
        client := client.rejectCatalog message
        failure := session.failure <|> some message }

/- The client reads the next line. -/
def read : CatalogSession :=
  match session.stdout with
  | [] => session
  | .response continuation :: rest =>
      { session with
        stdout := rest
        continuations :=
          session.continuations ++ [continuation] }
  | .event event :: rest =>
      { session with stdout := rest }.settle
        (session.client.acceptCatalogEvent
          session.workspaceIdentity event)

/- The client continues behind a resolved request. -/
def resume : CatalogSession :=
  match session.continuations with
  | [] => session
  | .start response :: rest =>
      { session with continuations := rest }.settle
        (session.client.beginCatalog response)
  | .cancel response :: rest =>
      { session with continuations := rest }.settle
        (session.client.finishCancel response)

def step : Move → CatalogSession
| .worker =>
    { session with
      catalog := session.catalog.step generation .worker }
| .panic =>
    { session with
      catalog := session.catalog.step generation .panic }
| .tick elapsed =>
    { session with now := session.now + elapsed }
| .receive => session.receive
| .heartbeat => session.heartbeat
| .request => session.request world generation
| .caller => session.caller world generation
| .read => session.read
| .resume => session.resume
| .abort =>
    { session with client := session.client.onAbort }

----------
-- Conforming Runs
----------

/- The answer to a cancel that came too late. -/
def isRefusal : Continuation → Bool
| .start _ => false
| .cancel response =>
    match response.field "cancelled" with
    | some (.bool cancelled) => !cancelled
    | _ => false

/- An event with which the catalog ends. -/
def isTerminalEvent (event : Json) : Bool :=
  match isCatalogPhase
      ((CatalogRun.eventParam event "status").bind
        fun status => status.field "phase") with
  | some phase => isTerminalPhase phase
  | none => false

/- The update at the head of the channel. -/
def nextUpdate : Option CatalogUpdate :=
  (sentUpdates session.catalog.history)[session.received]?

/- The event at the head of the output. -/
def nextEvent : Option Json :=
  match session.stdout with
  | .event event :: _ => some event
  | _ => none

/-
  The steps at which the client keeps up: every number is a
  safe integer, and no report is read while a refused cancel
  waits for its continuation.
-/
def Conforming : Move → Prop
| .tick elapsed => session.now + elapsed ≤ maxSafeInteger
| .receive =>
    ∀ update ∈ session.nextUpdate,
      SmallProgress (updateProgress update)
| .read =>
    ∀ event ∈ session.nextEvent,
      isTerminalEvent event = false →
        session.continuations.any isRefusal = false
| _ => True

instance : ∀ move, Decidable (session.Conforming move)
| .tick elapsed =>
    inferInstanceAs
      (Decidable (session.now + elapsed ≤ maxSafeInteger))
| .receive =>
    inferInstanceAs
      (Decidable
        (∀ update ∈ session.nextUpdate,
          SmallProgress (updateProgress update)))
| .read =>
    inferInstanceAs
      (Decidable
        (∀ event ∈ session.nextEvent,
          isTerminalEvent event = false →
            session.continuations.any isRefusal = false))
| .worker => isTrue trivial
| .panic => isTrue trivial
| .heartbeat => isTrue trivial
| .request => isTrue trivial
| .caller => isTrue trivial
| .resume => isTrue trivial
| .abort => isTrue trivial

/- Nothing is left to do for the session. -/
def Drained : Prop :=
  session.catalog.worker.advance session.catalog.control =
      none ∧
    session.received =
      (sentUpdates session.catalog.history).length ∧
    session.calling = none ∧
    session.stdout = [] ∧
    session.continuations = []

end CatalogSession

end Client

end ArktsServer
