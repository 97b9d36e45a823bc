import ArktsServer.Lib.OrderedMap
import ArktsServer.Lib.Transition
import Mathlib.Logic.Function.Basic

/-
  `CompletionResolutionQueue`: the detail requests of a
  workspace run one after the other.  A job that has its turn
  keeps it until its promise has settled and its last
  microtask has run; one that waits leaves when its signal is
  aborted or the queue is cleared.

  Key definitions include:
    * `Stage`, `PendingResolution`, `WorkspaceQueue`
    * `CompletionResolutionQueue.run`
    * `CompletionResolutionQueue.cancel`
    * `CompletionResolutionQueue.microtask`
    * `CompletionResolutionQueue.aborted`
    * `Event`, `CompletionResolutionQueue.step`
-/

namespace ArktsServer

namespace Resolutions

----------
-- Jobs
----------

abbrev JobId := Nat

abbrev QueueId := Nat

abbrev SignalId := Nat

inductive Settlement (Reason Value : Type) where
| resolved (value : Value)
| rejected (reason : Reason)
| queueClosed
| queueFull
deriving DecidableEq

/-
  What is left of a job: to get its turn, to run the
  microtask that executes it, to get its result, to settle
  the promise, to hand its turn over.
-/
inductive Stage (Reason Value : Type) where
| waiting
| starting
| executing
| answered (settlement : Settlement Reason Value)
| settled
| finished
deriving DecidableEq

/- An admitted call of `run` and how it was settled. -/
structure PendingResolution
    (Workspace Reason Value : Type) where
  workspaceId : Workspace
  queue : QueueId
  signal : SignalId
  listening : Bool := true
  stage : Stage Reason Value := .waiting
  settlements : List (Settlement Reason Value) := []

structure WorkspaceQueue where
  active : Option JobId := none
  waiting : List JobId := []

/-
  `executed` tells which jobs were executed, in order, and
  `refused` how the calls that were not admitted were
  settled.
-/
structure CompletionResolutionQueue
    (Workspace Reason Value : Type) where
  workspaces : OrderedMap Workspace QueueId
  queues : QueueId → WorkspaceQueue
  nextQueue : QueueId
  jobs : List (PendingResolution Workspace Reason Value)
  pending : Int
  closed : Bool
  signals : SignalId → Option Reason
  executed : List JobId
  refused : List (Settlement Reason Value)

def maxCompletionResolutions : Int := 512

section Steps

variable {Workspace Reason Value : Type}
  [DecidableEq Workspace]

namespace CompletionResolutionQueue

def empty :
    CompletionResolutionQueue Workspace Reason Value where
  workspaces := OrderedMap.empty
  queues := fun _ => {}
  nextQueue := 0
  jobs := []
  pending := 0
  closed := false
  signals := fun _ => none
  executed := []
  refused := []

variable (state : CompletionResolutionQueue Workspace Reason Value)

def setJob
    (id : JobId)
    (job : PendingResolution Workspace Reason Value) :
    CompletionResolutionQueue Workspace Reason Value :=
  { state with jobs := state.jobs.set id job }

def setQueue
    (id : QueueId)
    (queue : WorkspaceQueue) :
    CompletionResolutionQueue Workspace Reason Value :=
  { state with
    queues := Function.update state.queues id queue }

----------
-- Turns
----------

/- The job has its turn; a microtask is to execute it. -/
def start
    (id : JobId) :
    CompletionResolutionQueue Workspace Reason Value :=
  match state.jobs[id]? with
  | none => state
  | some job =>
      (state.setQueue job.queue
        { state.queues job.queue with active := some id }
      ).setJob id { job with stage := .starting }

/- `#next`. -/
def next
    (workspaceId : Workspace)
    (id : QueueId) :
    CompletionResolutionQueue Workspace Reason Value :=
  let queue := state.queues id
  if queue.active.isSome then
    state
  else if state.closed then
    if queue.waiting.isEmpty then
      { state with
        workspaces := state.workspaces.delete workspaceId }
    else
      state
  else
    match queue.waiting with
    | first :: waiting =>
        (state.setQueue id { queue with waiting := waiting }
        ).start first
    | [] =>
        if state.workspaces.get workspaceId = some id then
          { state with
            workspaces := state.workspaces.delete workspaceId }
        else
          state

/- `finished`: the listener is removed. -/
def finished
    (state : CompletionResolutionQueue Workspace Reason Value)
    (id : JobId)
    (job : PendingResolution Workspace Reason Value) :
    CompletionResolutionQueue Workspace Reason Value :=
  { state.setJob id
      { job with listening := false, stage := .finished } with
    pending := state.pending - 1 }

/- A job that waits leaves its queue. -/
def cancel
    (id : JobId)
    (reason : Settlement Reason Value) :
    CompletionResolutionQueue Workspace Reason Value :=
  match state.jobs[id]? with
  | none => state
  | some job =>
      let queue := state.queues job.queue
      if queue.waiting.contains id then
        let left :=
          state.setQueue job.queue
            { queue with waiting := queue.waiting.erase id }
        let done :=
          left.finished id
            { job with
              settlements := job.settlements ++ [reason] }
        done.next job.workspaceId job.queue
      else
        state

----------
-- Calls
----------

/- The queue of a workspace, which is created if needed. -/
def queueOf
    (workspaceId : Workspace) :
    CompletionResolutionQueue Workspace Reason Value
      × QueueId :=
  match state.workspaces.get workspaceId with
  | some id => (state, id)
  | none =>
      let id := state.nextQueue
      ({ state with
          workspaces := state.workspaces.set workspaceId id
          queues := Function.update state.queues id {}
          nextQueue := id + 1 },
        id)

def refuse
    (reason : Settlement Reason Value) :
    CompletionResolutionQueue Workspace Reason Value :=
  { state with refused := state.refused ++ [reason] }

/- A new job waits for its turn, which may be at once. -/
def enqueue
    (workspaceId : Workspace)
    (signal : SignalId) :
    CompletionResolutionQueue Workspace Reason Value :=
  let found := state.queueOf workspaceId
  let id := found.1.jobs.length
  let queue := found.1.queues found.2
  let pushed :=
    found.1.setQueue found.2
      { queue with waiting := queue.waiting ++ [id] }
  let admitted :
      CompletionResolutionQueue Workspace Reason Value :=
    { pushed with
      pending := pushed.pending + 1
      jobs :=
        pushed.jobs
          ++ [{ workspaceId := workspaceId
                queue := found.2
                signal := signal }] }
  admitted.next workspaceId found.2

def run
    (workspaceId : Workspace)
    (signal : SignalId) :
    CompletionResolutionQueue Workspace Reason Value :=
  match state.signals signal with
  | some reason => state.refuse (.rejected reason)
  | none =>
      if state.closed then
        state.refuse .queueClosed
      else if maxCompletionResolutions ≤ state.pending then
        state.refuse .queueFull
      else
        state.enqueue workspaceId signal

/- `clear`: each queue is copied before its jobs leave. -/
def clear
    (state : CompletionResolutionQueue Workspace Reason Value) :
    CompletionResolutionQueue Workspace Reason Value :=
  state.workspaces.values.foldl
    (fun state id =>
      (state.queues id).waiting.foldl
        (fun state job => state.cancel job .queueClosed)
        state)
    { state with closed := true }

----------
-- Events
----------

/- The next microtask of a job. -/
def microtask
    (id : JobId) :
    CompletionResolutionQueue Workspace Reason Value :=
  match state.jobs[id]? with
  | none => state
  | some job =>
      match job.stage with
      | .starting =>
          match state.signals job.signal with
          | some reason =>
              state.setJob id
                { job with
                  stage := .answered (.rejected reason) }
          | none =>
              { state.setJob id
                  { job with stage := .executing } with
                executed := state.executed ++ [id] }
      | .answered settlement =>
          state.setJob id
            { job with
              stage := .settled
              settlements := job.settlements ++ [settlement] }
      | .settled =>
          let done := state.finished id job
          (done.setQueue job.queue
            { done.queues job.queue with active := none }
          ).next job.workspaceId job.queue
      | .waiting => state
      | .executing => state
      | .finished => state

/- The promise that `execute` returned settles. -/
def result
    (id : JobId)
    (settlement : Settlement Reason Value) :
    CompletionResolutionQueue Workspace Reason Value :=
  match state.jobs[id]? with
  | none => state
  | some job =>
      match job.stage with
      | .executing =>
          state.setJob id
            { job with stage := .answered settlement }
      | .waiting => state
      | .starting => state
      | .answered _ => state
      | .settled => state
      | .finished => state

/- `aborted`: a listener is called once. -/
def aborted
    (id : JobId) :
    CompletionResolutionQueue Workspace Reason Value :=
  match state.jobs[id]? with
  | none => state
  | some job =>
      match state.signals job.signal with
      | none => state
      | some reason =>
          if job.listening then
            (state.setJob id
              { job with listening := false }
            ).cancel id (.rejected reason)
          else
            state

/- A signal is aborted before its listeners hear of it. -/
inductive Event (Workspace Reason Value : Type) where
| run (workspaceId : Workspace) (signal : SignalId)
| microtask (job : JobId)
| result (job : JobId)
    (settlement : Settlement Reason Value)
| abort (signal : SignalId) (reason : Reason)
| listener (job : JobId)
| clear

/- Events that cannot happen change nothing. -/
def step
    (state : CompletionResolutionQueue Workspace Reason Value) :
    Event Workspace Reason Value →
      CompletionResolutionQueue Workspace Reason Value
| .run workspaceId signal => state.run workspaceId signal
| .microtask id => state.microtask id
| .result id settlement => state.result id settlement
| .abort signal reason =>
    { state with
      signals :=
        Function.update state.signals signal
          (some ((state.signals signal).getD reason)) }
| .listener id => state.aborted id
| .clear => state.clear

end CompletionResolutionQueue

end Steps

end Resolutions

end ArktsServer
