import ArktsServer.Lib.OrderedMap
import ArktsServer.Lib.Transition
import Mathlib.Logic.Function.Basic

/-
  `InFlightRequestCoalescer`: requests for one key wait for
  one operation.  Whoever leaves last takes the operation out
  of the map, and cancels it if it has not settled.

  The operation is a promise: what waits for it is told by
  microtasks, which run one after the other, and so is the
  coalescer itself.

  Key definitions include:
    * `SharedOperation`, `Waiter`, `Coalescer`
    * `Coalescer.run`, `Coalescer.finish`
    * `Coalescer.release`, `Coalescer.settle`
    * `Event`, `Coalescer.step`
-/

namespace ArktsServer

namespace Coalescing

----------
-- Operations and Waiters
----------

abbrev OperationId := Nat

abbrev WaiterId := Nat

abbrev SignalId := Nat

/- What runs in a microtask. -/
inductive Job (Key : Type) where
| start (operation : OperationId)
| settled (key : Key) (operation : OperationId)
| react (waiter : WaiterId)

/-
  The promise has an outcome or keeps what is to run when it
  has; `starts` tells how often `start` was called.
-/
structure SharedOperation (Key Reason Outcome : Type) where
  aborted : Option (Option Reason) := none
  outcome : Option Outcome := none
  reactions : List (Job Key) := []
  starts : Nat := 0
  waiters : Int := 0
  settled : Bool := false

inductive Settlement (Reason Outcome : Type) where
| outcome (outcome : Outcome)
| aborted (reason : Option Reason)

/- A call of `run` and how its promise was settled. -/
structure Waiter (Key Reason Outcome : Type) where
  key : Key
  operation : OperationId
  signal : SignalId
  listening : Bool := true
  finished : Bool := false
  settlements : List (Settlement Reason Outcome) := []

structure Coalescer (Key Reason Outcome : Type) where
  operations : OrderedMap Key OperationId
  shared : OperationId → SharedOperation Key Reason Outcome
  nextOperation : OperationId
  waiters : List (Waiter Key Reason Outcome)
  signals : SignalId → Option Reason
  jobs : List (Job Key)

section Steps

variable {Key Reason Outcome : Type} [DecidableEq Key]

namespace Coalescer

def start : Coalescer Key Reason Outcome where
  operations := OrderedMap.empty
  shared := fun _ => {}
  nextOperation := 0
  waiters := []
  signals := fun _ => none
  jobs := []

variable (state : Coalescer Key Reason Outcome)

def change
    (operation : OperationId)
    (update :
      SharedOperation Key Reason Outcome →
        SharedOperation Key Reason Outcome) :
    Coalescer Key Reason Outcome :=
  { state with
    shared :=
      Function.update state.shared operation
        (update (state.shared operation)) }

/- `promise.then`. -/
def whenSettled
    (operation : OperationId)
    (job : Job Key) : Coalescer Key Reason Outcome :=
  if (state.shared operation).outcome.isSome then
    { state with jobs := state.jobs ++ [job] }
  else
    state.change operation fun shared =>
      { shared with reactions := shared.reactions ++ [job] }

----------
-- Leaving
----------

/- `Map.prototype.delete` where the operation is the entry. -/
def forget
    (key : Key)
    (operation : OperationId) :
    Coalescer Key Reason Outcome :=
  if state.operations.get key = some operation then
    { state with operations := state.operations.delete key }
  else
    state

/- `AbortController.abort`: the first reason stays. -/
def abortOperation
    (operation : OperationId)
    (reason : Option Reason) : Coalescer Key Reason Outcome :=
  state.change operation fun shared =>
    { shared with
      aborted := some (shared.aborted.getD reason) }

def release
    (key : Key)
    (operation : OperationId)
    (reason : Option Reason) : Coalescer Key Reason Outcome :=
  let state :=
    state.change operation fun shared =>
      { shared with waiters := shared.waiters - 1 }
  if (state.shared operation).waiters ≠ 0 then
    state
  else
    let state := state.forget key operation
    if (state.shared operation).settled then state
    else state.abortOperation operation reason

/-
  `finish`; what the listeners of the operation's signal do
  comes as later events, for it cannot see the promise of the
  waiter.
-/
def finish
    (id : WaiterId)
    (settlement : Settlement Reason Outcome) :
    Coalescer Key Reason Outcome :=
  match state.waiters[id]? with
  | none => state
  | some waiter =>
      if waiter.finished then
        state
      else
        let released :=
          state.release waiter.key waiter.operation
            (state.signals waiter.signal)
        { released with
          waiters :=
            released.waiters.set id
              { waiter with
                listening := false
                finished := true
                settlements :=
                  waiter.settlements ++ [settlement] } }

----------
-- Joining
----------

/- The operation of a key, which is created if needed. -/
def operationFor
    (key : Key) :
    Coalescer Key Reason Outcome × OperationId :=
  match state.operations.get key with
  | some operation => (state, operation)
  | none =>
      let operation := state.nextOperation
      ({ state with
          operations := state.operations.set key operation
          shared :=
            Function.update state.shared operation
              { reactions := [.settled key operation] }
          nextOperation := operation + 1
          jobs := state.jobs ++ [.start operation] },
        operation)

/- A new waiter that listens to its signal. -/
def enter
    (key : Key)
    (signal : SignalId) : Coalescer Key Reason Outcome :=
  let found := state.operationFor key
  let counted :=
    found.1.change found.2 fun shared =>
      { shared with waiters := shared.waiters + 1 }
  { counted with
    waiters :=
      counted.waiters
        ++ [{ key := key
              operation := found.2
              signal := signal }] }

def run
    (key : Key)
    (signal : SignalId) : Coalescer Key Reason Outcome :=
  let id := state.waiters.length
  let entered := state.enter key signal
  match entered.signals signal with
  | some reason => entered.finish id (.aborted (some reason))
  | none =>
      entered.whenSettled (state.operationFor key).2 (.react id)

----------
-- Events
----------

/- `#settled`. -/
def settle
    (key : Key)
    (operation : OperationId) :
    Coalescer Key Reason Outcome :=
  let state :=
    state.change operation fun shared =>
      { shared with settled := true }
  if (state.shared operation).waiters = 0 then
    state.forget key operation
  else
    state

def perform
    (state : Coalescer Key Reason Outcome) :
    Job Key → Coalescer Key Reason Outcome
| .start operation =>
    state.change operation fun shared =>
      { shared with starts := shared.starts + 1 }
| .settled key operation => state.settle key operation
| .react id =>
    match state.waiters[id]? with
    | none => state
    | some waiter =>
        match (state.shared waiter.operation).outcome with
        | none => state
        | some outcome => state.finish id (.outcome outcome)

/-
  The next microtask runs, the promise that `start` returned
  gets an outcome, a signal is aborted, and a listener hears
  of it.
-/
inductive Event (Key Reason Outcome : Type) where
| run (key : Key) (signal : SignalId)
| job
| outcome (operation : OperationId) (outcome : Outcome)
| abort (signal : SignalId) (reason : Reason)
| listener (waiter : WaiterId)

/- Events that cannot happen change nothing. -/
def step
    (state : Coalescer Key Reason Outcome) :
    Event Key Reason Outcome → Coalescer Key Reason Outcome
| .run key signal => state.run key signal
| .job =>
    match state.jobs with
    | [] => state
    | job :: jobs => { state with jobs := jobs }.perform job
| .outcome operation outcome =>
    if (state.shared operation).starts = 0
        ∨ (state.shared operation).outcome.isSome then
      state
    else
      { state with
        shared :=
          Function.update state.shared operation
            { state.shared operation with
              outcome := some outcome
              reactions := [] }
        jobs :=
          state.jobs ++ (state.shared operation).reactions }
| .abort signal reason =>
    { state with
      signals :=
        Function.update state.signals signal
          (some ((state.signals signal).getD reason)) }
| .listener id =>
    match state.waiters[id]? with
    | none => state
    | some waiter =>
        match state.signals waiter.signal with
        | none => state
        | some reason =>
            if waiter.listening then
              state.finish id (.aborted (some reason))
            else
              state

end Coalescer

end Steps

end Coalescing

end ArktsServer
