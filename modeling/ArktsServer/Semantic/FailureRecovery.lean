import ArktsServer.Lib.Transition
import ArktsServer.Semantic.WorkerProtocol
import Mathlib.Algebra.Ring.Nat

/-
  The restart policy of the semantic worker: when a failed
  worker is restarted, when the circuit opens, and when
  explicit work may probe it.

  The policy calls the recycle, which owns the replacement
  of the worker.  Of the recycle the model keeps what the
  policy sees: whether it is active, and when a recovery
  that it runs settles.  Promise continuations are steps of
  their own.

  Key definitions include:
    * `Semantic.FailureRecovery`
    * `Semantic.Supervision`
    * `Semantic.Supervision.admitRequest`
    * `Semantic.Supervision.workerFailed`
    * `Semantic.Supervision.recover`
    * `Semantic.recoveryStep`
-/

namespace ArktsServer

namespace Semantic

----------
-- Errors
----------

/-
  A thrown value: a `SemanticWorkerSupervisorError` with its
  code, or anything else.
-/
inductive Thrown where
| supervisor (code : SemanticWorkerErrorCode)
| other
deriving DecidableEq

/- The code of the supervisor error that wraps the value. -/
def Thrown.wrapped : Thrown → SemanticWorkerErrorCode
| .supervisor code => code
| .other => .workerUnavailable

----------
-- State
----------

/-
  The reads of the clock, in their order, and Node's
  `isDeepStrictEqual`.
-/
structure Platform (Value : Type) where
  now : Nat → Nat
  isDeepStrictEqual : Value → Value → Bool

structure FailureRecovery (Value : Type) where
  restarts : List Nat := []
  pending : Option Nat := none
  failure : Option SemanticWorkerErrorCode := none
  automaticRestarts : Nat := 0
  failedInputRevision : Nat := 0
  inputRevision : Nat := 0
  blockedRevision : Nat := 0
  configurations : List (String × Value) := []
  probing : Bool := false
  stopping : Bool := false

/- What occupies the recycle: `run`, or a recovery. -/
inductive RecycleActivity where
| idle
| running
| recovering (task : Nat)
deriving DecidableEq

inductive TaskPhase where
| running
| settled (error : Option Thrown)
| caught
deriving DecidableEq

/-
  The promise of one call of `recycle.recover`.  A call that
  finds the recycle active only waits for that activity.
-/
structure RecoveryTask where
  id : Nat
  backoffMs : Nat
  waitsFor : Option Nat := none
  phase : TaskPhase := .running
deriving DecidableEq

/- A restart that the policy has decided on. -/
structure Restart where
  time : Nat
  automatic : Bool
deriving DecidableEq

/- What has happened, for the statements about runs. -/
inductive RecoveryRecord where
| opened (revision : Nat)
| halfOpen (revision : Nat)
| restarted (restart : Restart)
| retired
| healthy (newerInput : Bool)
deriving DecidableEq

/-
  The policy with its surroundings: `admissions` are the
  explicit `admit` calls that await a pending recovery, by
  its task, and `reads` counts the reads of the clock.
-/
structure Supervision (Value : Type) where
  recovery : FailureRecovery Value := {}
  disposed : Bool := false
  activity : RecycleActivity := .idle
  finishedActivities : Nat := 0
  tasks : List RecoveryTask := []
  nextTask : Nat := 0
  admissions : List Nat := []
  reads : Nat := 0
  log : List RecoveryRecord := []

namespace Supervision

variable {Value : Type}

----------
-- Failures and Inputs
----------

variable (supervision : Supervision Value)

def fail
    (error : Thrown) : Supervision Value :=
  let recovery := supervision.recovery
  if recovery.failure.isNone then
    { supervision with
      recovery :=
        { recovery with
          blockedRevision := recovery.inputRevision
          failure := some error.wrapped }
      log :=
        supervision.log ++ [.opened recovery.inputRevision] }
  else
    { supervision with
      recovery :=
        { recovery with failure := some error.wrapped } }

/- `Map.set`: the entry of a known key keeps its place. -/
def setConfiguration
    (configurations : List (String × Value))
    (configuration : String)
    (value : Value) : List (String × Value) :=
  if (configurations.lookup configuration).isSome then
    configurations.map fun entry =>
      if entry.1 = configuration then (entry.1, value)
      else entry
  else
    configurations ++ [(configuration, value)]

variable (platform : Platform Value)

/-
  `inputChanged`: a named configuration whose value is deep
  equal to the stored one is no change.  An empty name
  counts as none.
-/
def inputChanged
    (supervision : Supervision Value)
    (change : Option (String × Value)) : Supervision Value :=
  let recovery := supervision.recovery
  match change with
  | none =>
      { supervision with
        recovery :=
          { recovery with
            inputRevision := recovery.inputRevision + 1 } }
  | some (configuration, value) =>
      if configuration = "" then
        { supervision with
          recovery :=
            { recovery with
              inputRevision := recovery.inputRevision + 1 } }
      else if (recovery.configurations.lookup
          configuration).any
            (platform.isDeepStrictEqual · value) then
        supervision
      else
        { supervision with
          recovery :=
            { recovery with
              configurations :=
                setConfiguration recovery.configurations
                  configuration value
              inputRevision := recovery.inputRevision + 1 } }

def healthy (supervision : Supervision Value) :
    Supervision Value :=
  let recovery := supervision.recovery
  let newerInput :=
    decide (recovery.failedInputRevision <
      recovery.inputRevision)
  let log := supervision.log ++ [.healthy newerInput]
  if recovery.failure.isSome then
    { supervision with log := log }
  else
    { supervision with
      recovery :=
        { recovery with
          automaticRestarts :=
            if newerInput then 0
            else recovery.automaticRestarts
          probing := false }
      log := log }

/- `assertHealthy` returns without throwing. -/
def healthAsserted
    (explicit : Bool) : Bool :=
  !supervision.disposed &&
    supervision.recovery.failure.isNone &&
      (!supervision.recovery.probing || explicit)

----------
-- Recoveries
----------

/- The width of the rate window in milliseconds. -/
def rateWindowMs : Nat := 180000

/-
  The loop of `expireRateWindow`; each turn reads the clock.
  It returns the kept restarts and the number of reads.
-/
def expireRestarts
    (platform : Platform Value) :
    List Nat → Nat → List Nat × Nat
| [], reads => ([], reads)
| restart :: restarts, reads =>
    if rateWindowMs < platform.now reads - restart then
      expireRestarts platform restarts (reads + 1)
    else
      (restart :: restarts, reads + 1)

def expireRateWindow
    (supervision : Supervision Value) : Supervision Value :=
  let expired :=
    expireRestarts platform supervision.recovery.restarts
      supervision.reads
  { supervision with
    recovery :=
      { supervision.recovery with restarts := expired.1 }
    reads := expired.2 }

/- `recycle.active`. -/
def recycleActive (supervision : Supervision Value) : Bool :=
  supervision.activity ≠ .idle

def backoffMs (automaticRestarts : Nat) : Nat :=
  min 1000 (250 * 2 ^ (automaticRestarts - 1))

/-
  `recover`: `restart` is its boolean argument, with what
  the log records of the restart.  The call of
  `recycle.recover` takes the recycle if it is idle.
-/
def recover
    (restart : Option Restart) : Supervision Value :=
  if supervision.recovery.pending.isSome then
    supervision
  else
    let task : RecoveryTask :=
      { id := supervision.nextTask
        backoffMs :=
          backoffMs supervision.recovery.automaticRestarts }
    let begun :=
      { supervision with
        recovery :=
          { supervision.recovery with
            pending := some supervision.nextTask }
        nextTask := supervision.nextTask + 1 }
    if supervision.recycleActive then
      { begun with
        tasks :=
          supervision.tasks ++
            [{ task with
              waitsFor :=
                some (supervision.finishedActivities + 1) }] }
    else
      { begun with
        activity := .recovering supervision.nextTask
        tasks := supervision.tasks ++ [task]
        log :=
          supervision.log ++
            [match restart with
              | some restart => .restarted restart
              | none => .retired] }

/-
  The part of `admit` behind the await: the half-open probe
  of an open circuit.
-/
def probe
    (supervision : Supervision Value) : Supervision Value :=
  if supervision.recovery.failure.isNone ∨
      supervision.recovery.stopping = true ∨
        supervision.disposed = true then
    supervision
  else
    let expired := expireRateWindow platform supervision
    let recovery := expired.recovery
    if recovery.inputRevision ≤ recovery.blockedRevision ∨
        3 ≤ recovery.restarts.length then
      expired
    else
      let now := platform.now expired.reads
      recover
        { expired with
          recovery :=
            { recovery with
              probing := true
              blockedRevision := recovery.inputRevision
              failure := none
              restarts := recovery.restarts ++ [now] }
          reads := expired.reads + 1
          log := expired.log ++ [.halfOpen recovery.inputRevision] }
        (some ⟨now, false⟩)

/-
  `admit`.  The call that throws or returns leaves no trace;
  one that finds a pending recovery waits for it.
-/
def admitRequest
    (supervision : Supervision Value)
    (explicit : Bool) : Supervision Value :=
  if supervision.recovery.probing = true ∧
      explicit = false then
    supervision
  else if supervision.recovery.failure.isNone ∨
      explicit = false then
    supervision
  else
    match supervision.recovery.pending with
    | some task =>
        { supervision with
          admissions := supervision.admissions ++ [task] }
    | none => probe platform supervision

/- The beginning of `workerFailed`. -/
def noteFailure
    (supervision : Supervision Value) : Supervision Value :=
  expireRateWindow platform
    { supervision with
      recovery :=
        { supervision.recovery with
          failedInputRevision :=
            supervision.recovery.inputRevision } }

def workerFailed
    (supervision : Supervision Value)
    (error : Thrown) : Supervision Value :=
  if supervision.disposed = true ∨
      supervision.recovery.stopping = true then
    supervision
  else
    let failed := noteFailure platform supervision
    let recovery := failed.recovery
    if recovery.pending.isSome ∨
        failed.recycleActive = true then
      failed.fail error
    else if recovery.probing = false ∧
        recovery.restarts.length < 3 ∧
          recovery.automaticRestarts < 3 then
      let now := platform.now failed.reads
      recover
        { failed with
          recovery :=
            { recovery with
              restarts := recovery.restarts ++ [now]
              automaticRestarts :=
                recovery.automaticRestarts + 1 }
          reads := failed.reads + 1 }
        (some ⟨now, true⟩)
    else
      recover (failed.fail error) none

def mutationFailed
    (supervision : Supervision Value)
    (error : Thrown) : Supervision Value :=
  if supervision.disposed = true then
    supervision
  else if error = .supervisor .restartRequired then
    workerFailed platform supervision error
  else
    supervision.fail error

----------
-- Continuations
----------

def task?
    (id : Nat) : Option RecoveryTask :=
  supervision.tasks.find? (·.id = id)

def setPhase
    (id : Nat)
    (phase : TaskPhase) : Supervision Value :=
  { supervision with
    tasks :=
      supervision.tasks.map fun task =>
        if task.id = id then { task with phase := phase }
        else task }

/-
  `recycle.recover` settles: the recovery that has the
  recycle releases it, one that waits needs its activity to
  have ended.
-/
def recycleSettles
    (id : Nat)
    (error : Option Thrown) : Supervision Value :=
  match supervision.task? id with
  | some { phase := .running, waitsFor := none, .. } =>
      { supervision.setPhase id (.settled error) with
        activity := .idle
        finishedActivities :=
          supervision.finishedActivities + 1 }
  | some { phase := .running, waitsFor := some count, .. } =>
      if count ≤ supervision.finishedActivities then
        supervision.setPhase id (.settled none)
      else
        supervision
  | _ => supervision

/- The `catch` behind `recycle.recover`. -/
def recoveryCaught
    (id : Nat) : Supervision Value :=
  match supervision.task? id with
  | some { phase := .settled (some error), .. } =>
      (supervision.setPhase id .caught).fail error
  | some { phase := .settled none, .. } =>
      supervision.setPhase id .caught
  | _ => supervision

/- The `finally` behind it; the task has then settled. -/
def recoveryFinished
    (id : Nat) : Supervision Value :=
  match supervision.task? id with
  | some { phase := .caught, .. } =>
      { supervision with
        tasks :=
          supervision.tasks.filter fun task => task.id ≠ id
        recovery :=
          { supervision.recovery with
            pending :=
              if supervision.recovery.pending = some id then
                none
              else
                supervision.recovery.pending } }
  | _ => supervision

/- An `admit` call goes on once its task has settled. -/
def admitResumes
    (supervision : Supervision Value)
    (id : Nat) : Supervision Value :=
  if id ∈ supervision.admissions ∧
      (supervision.task? id).isNone then
    probe platform
      { supervision with
        admissions := supervision.admissions.erase id }
  else
    supervision

/- `recycle.run` takes the recycle after its health check. -/
def runStarts (supervision : Supervision Value) :
    Supervision Value :=
  if supervision.healthAsserted true = true ∧
      supervision.activity = .idle then
    { supervision with activity := .running }
  else
    supervision

def runEnds (supervision : Supervision Value) :
    Supervision Value :=
  if supervision.activity = .running then
    { supervision with
      activity := .idle
      finishedActivities :=
        supervision.finishedActivities + 1 }
  else
    supervision

def settle (supervision : Supervision Value) :
    Supervision Value :=
  { supervision with
    recovery := { supervision.recovery with stopping := true } }

def dispose (supervision : Supervision Value) :
    Supervision Value :=
  { supervision with disposed := true }

end Supervision

----------
-- Events
----------

/-
  `failed` are the calls of `fail` by others: by the recycle
  on a failed replacement, or on a failed retirement.
-/
inductive RecoveryEvent (Value : Type) where
| workerFailed (error : Thrown)
| mutationFailed (error : Thrown)
| failed (error : Thrown)
| healthy
| inputChanged (change : Option (String × Value))
| admitRequest (explicit : Bool)
| admitResumes (task : Nat)
| recycleSettles (task : Nat) (error : Option Thrown)
| recoveryCaught (task : Nat)
| recoveryFinished (task : Nat)
| runStarts
| runEnds
| settle
| dispose

def recoveryStep
    {Value : Type}
    (platform : Platform Value)
    (supervision : Supervision Value) :
    RecoveryEvent Value → Supervision Value
| .workerFailed error =>
    supervision.workerFailed platform error
| .mutationFailed error =>
    supervision.mutationFailed platform error
| .failed error => supervision.fail error
| .healthy => supervision.healthy
| .inputChanged change =>
    supervision.inputChanged platform change
| .admitRequest explicit => supervision.admitRequest platform explicit
| .admitResumes task =>
    supervision.admitResumes platform task
| .recycleSettles task error =>
    supervision.recycleSettles task error
| .recoveryCaught task => supervision.recoveryCaught task
| .recoveryFinished task => supervision.recoveryFinished task
| .runStarts => supervision.runStarts
| .runEnds => supervision.runEnds
| .settle => supervision.settle
| .dispose => supervision.dispose

/- The state after a run of the policy. -/
def recoveryRun
    {Value : Type}
    (platform : Platform Value)
    (events : List (RecoveryEvent Value)) :
    Supervision Value :=
  Transition.run (recoveryStep platform) {} events

end Semantic

end ArktsServer
