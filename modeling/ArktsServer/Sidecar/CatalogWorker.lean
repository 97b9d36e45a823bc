import ArktsServer.Lib.SharedCell
import ArktsServer.Sidecar.Runtime

/-
  The catalog worker as a program over the state byte that it
  shares with the request loop.

  What the worker cannot decide itself is a script: what the
  scan meets, what the store and the clock answer, how long
  a test gate holds it.  The results about the worker are for
  every script.

  Key definitions include:
    * `ControlState`, `WorkerEffect`
    * `cancel`
    * `beginActivation`, `observe`, `emit`
    * `sessionSteps`, `finish`
    * `catalogWorker`
-/

----------
-- The Shared State
----------

namespace ArktsServer

namespace Sidecar

/- The values of the state byte. -/
inductive ControlState where
| running
| cancelled
| activating
| testActivationWaiting
| publishing
deriving DecidableEq

/-
  What others see of the worker: its updates, and the moment
  at which the catalog becomes the published one.
-/
inductive WorkerEffect where
| send (update : CatalogUpdate)
| publish
deriving DecidableEq

/- A part of a program over the state byte. -/
abbrev Action (Value : Type) :=
  SharedCell.Program ControlState WorkerEffect Value

/- `CatalogControl::cancel`: three exchanges in sequence. -/
def cancel : Action Bool :=
  .exchange .running .cancelled fun fromRunning =>
    if fromRunning then
      .done true
    else
      .exchange .activating .cancelled fun fromActivating =>
        if fromActivating then
          .done true
        else
          .exchange .testActivationWaiting .cancelled .done

----------
-- Activation
----------

/- A test gate: how often it is polled, and how it ends. -/
structure FileGate where
  polls : Nat
  released : Bool

/- Wait for the release of a gate, watching the state. -/
def waitForRelease (released : Bool) :
    Nat → Action (Except String Bool)
| 0 =>
    .load fun state =>
      if state = .cancelled then
        .done (Except.ok false)
      else if released then
        .done (Except.ok true)
      else
        .done
          (Except.error
            "test activation file gate timed out")
| polls + 1 =>
    .load fun state =>
      if state = .cancelled then
        .done (Except.ok false)
      else
        waitForRelease released polls

/- Behind an open gate the worker becomes activating. -/
def afterRelease :
    Except String Bool → Action (Except String Bool)
| Except.error message => .done (Except.error message)
| Except.ok false => .done (Except.ok false)
| Except.ok true =>
    .exchange .testActivationWaiting .activating fun swapped =>
      .done (Except.ok swapped)

section Worker

variable (generation : Nat)

/- The worker leaves the running state, once. -/
def beginActivation
    (progress : CatalogProgress) :
    Except String (Option FileGate) →
      Action (Except String Bool)
| Except.error message => .done (Except.error message)
| Except.ok none =>
    .exchange .running .activating fun swapped =>
      if swapped then
        .perform (.send (.activating generation progress))
          (.done (Except.ok true))
      else
        .done (Except.ok false)
| Except.ok (some gate) =>
    .exchange .running .testActivationWaiting fun swapped =>
      if swapped then
        .perform (.send (.activating generation progress))
          ((waitForRelease gate.released gate.polls).bind
            afterRelease)
      else
        .done (Except.ok false)

----------
-- Observing a Build
----------

/-
  What one observation finds: the clock, whether the last
  report is recent, the writer gate, and for every chunk of
  sources whether it is current.
-/
structure Observation where
  now : Nat
  recent : Bool
  writerReleased : Bool
  sourcesCurrent : List Bool

/-
  The state of a build: the storage counters, the reported
  progress, the documents that are read but not written, the
  rejected documents, and why the build failed.
-/
structure BuildState where
  storage : CatalogBuildProgress
  progress : CatalogProgress
  pendingDocuments : Nat
  rejectedDocuments : List String
  sourceChanged : Bool
  failure : Option String

def cancelledMessage : String :=
  "catalog build cancelled before publication"

/- Count one sign of life. -/
def BuildState.bump (state : BuildState) : BuildState :=
  { state with
    progress :=
      { state.progress with
        activitySequence :=
          state.progress.activitySequence + 1 } }

/- The sources of a checked build, chunk by chunk. -/
def checkSources :
    List Bool → BuildState → Action (Bool × BuildState)
| [], state => .done (true, state)
| current :: rest, state =>
    .load fun control =>
      if control = .cancelled then
        .done (false, state)
      else if current = false then
        .done (false, { state with sourceChanged := true })
      else
        .perform
          (.send (.activating generation state.bump.progress))
          (checkSources rest state.bump)

variable (state : BuildState)

/- The progress with the storage counters of this moment. -/
def BuildState.report
    (now : Nat) : BuildState :=
  let progress := state.progress
  let sameStage :=
    progress.storage.any fun previous =>
      previous.stage = state.storage.stage
  { state with
    progress :=
      { progress with
        storage := some state.storage
        stageStarted :=
          if sameStage then
            progress.stageStarted
          else
            some now
        activitySequence := progress.activitySequence + 1 } }

/- The update that reports a state. -/
def reportUpdate
    (control : ControlState)
    (progress : CatalogProgress) : CatalogUpdate :=
  if control = .running then
    .progress generation progress
  else
    .activating generation progress

/- Take the right to publish. -/
def claimPublishing (state : BuildState) :
    Action (Bool × BuildState) :=
  if state.storage.stage = .publishing then
    .exchange .activating .publishing fun swapped =>
      .done (swapped, state)
  else
    .done (true, state)

/- The checks behind a report. -/
def afterReport
    (view : Observation)
    (state : BuildState) : Action (Bool × BuildState) :=
  .load fun control =>
    if control = .running ∧
        state.storage.stage = .writing ∧
        view.writerReleased = false then
      .done (false, state)
    else if state.storage.stage = .checking then
      (checkSources generation view.sourcesCurrent
        state).bind fun checked =>
          if checked.1 then
            claimPublishing checked.2
          else
            .done checked
    else
      claimPublishing state

/- `StorageObserver::observe`. -/
def observe
    (view : Observation)
    (state : BuildState) : Action (Bool × BuildState) :=
  .load fun control =>
    if control = .cancelled then
      .done (false, state)
    else if state.storage.stage = .writing ∧
        state.progress.storage = some state.storage ∧
        view.recent then
      .done (true, state)
    else
      .load fun control =>
        .perform
          (.send
            (reportUpdate generation control
              (state.report view.now).progress))
          (afterReport generation view
            (state.report view.now))

/- A refused observation fails the build. -/
def afterObserve (result : Bool × BuildState) : BuildState :=
  if result.1 then
    result.2
  else
    { result.2 with failure := some cancelledMessage }

def BuildState.enter
    (stage : CatalogStage) : BuildState :=
  { state with storage := { state.storage with stage } }

/- Enter a stage and ask the observer. -/
def emit
    (stage : CatalogStage)
    (view : Observation)
    (state : BuildState) : Action BuildState :=
  (observe generation view (state.enter stage)).bind
    fun result => .done (afterObserve result)

----------
-- Writing
----------

/- The stages that a writer reports. -/
inductive WriteStage where
| writing
| committing
| checkpointing

def WriteStage.stage : WriteStage → CatalogStage
| .writing => .writing
| .committing => .committing
| .checkpointing => .checkpointing

/-
  One step of a private build.  The producer parses, rejects
  or skips a source and activates at its end; the writer
  reports, commits documents and rows, and moves frames.
-/
inductive BuildStep where
| emit (stage : WriteStage) (view : Observation)
| parsed
| rejected (uri : String)
| skipped
| activate (gate : Except String (Option FileGate))
| wrote (documents rows : Nat)
| checkpointed (walFrames checkpointedFrames : Nat)
| fail (message : String)

def BuildState.parsed (state : BuildState) : BuildState :=
  { state with
    progress :=
      { state.progress with
        indexed := state.progress.indexed + 1 }
    pendingDocuments := state.pendingDocuments + 1 }

def BuildState.rejected
    (state : BuildState)
    (uri : String) : BuildState :=
  { state with
    progress :=
      { state.progress with
        rejected := state.progress.rejected + 1 }
    rejectedDocuments := state.rejectedDocuments ++ [uri] }

def BuildState.skipped (state : BuildState) : BuildState :=
  { state with
    progress :=
      { state.progress with
        policySkipped := state.progress.policySkipped + 1 } }

/- Commit pending documents, as many as there are. -/
def BuildState.wrote
    (documents rows : Nat) : BuildState :=
  let written := min documents state.pendingDocuments
  { state with
    storage :=
      { state.storage with
        writtenDocuments :=
          state.storage.writtenDocuments + written
        writtenRows := state.storage.writtenRows + rows }
    pendingDocuments := state.pendingDocuments - written }

def BuildState.checkpointed
    (walFrames checkpointedFrames : Nat) : BuildState :=
  { state with
    storage :=
      { state.storage with walFrames, checkpointedFrames } }

def BuildState.fail
    (message : String) : BuildState :=
  { state with failure := some message }

/- The producer of a stream ends by activating. -/
def activateProducer
    (gate : Except String (Option FileGate))
    (state : BuildState) : Action BuildState :=
  (beginActivation generation state.progress gate).bind
    fun result =>
      .done
        (match result with
        | Except.ok true => state
        | Except.ok false =>
            state.fail
              "catalog stream cancelled before activation"
        | Except.error message => state.fail message)

def buildStep : BuildStep → BuildState → Action BuildState
| .emit stage view, state =>
    emit generation stage.stage view state
| .parsed, state => .done state.parsed
| .rejected uri, state => .done (state.rejected uri)
| .skipped, state => .done state.skipped
| .activate gate, state =>
    activateProducer generation gate state
| .wrote documents rows, state =>
    .done (state.wrote documents rows)
| .checkpointed walFrames checkpointedFrames, state =>
    .done (state.checkpointed walFrames checkpointedFrames)
| .fail message, state => .done (state.fail message)

----------
-- Sessions
----------

/- Run steps until one fails the build. -/
def runSteps :
    List (BuildState → Action BuildState) →
      BuildState → Action BuildState
| [], state => .done state
| step :: rest, state =>
    if state.failure.isSome then
      .done state
    else
      (step state).bind (runSteps rest)

/- An outside operation that may fail. -/
def attempt
    (failure : Option String)
    (state : BuildState) : Action BuildState :=
  .done { state with failure }

structure RebuildScript where
  openFailure : Option String
  writes : List BuildStep
  validating : Observation
  validateFailure : Option String
  checkpointing : Observation
  finishFailure : Option String
  walFrames : Nat
  checkpointedFrames : Nat
  checkpointed : Observation
  syncFailure : Option String

/-
  The two routes of a session.  A reuse trusts the counted
  sources and reads the rejected documents of the store; a
  rebuild writes a private database.
-/
inductive Route where
| reuse
    (verified : Nat)
    (gate : Except String (Option FileGate))
    (view : Observation)
    (storedRejected : Except String (List String))
| rebuild (script : RebuildScript)

structure SessionScript where
  openFailure : Option String
  route : Route
  checking : Observation
  lockFailure : Option String
  publishing : Observation
  commitFailure : Option String

/- The observer of a reuse activates first. -/
def emitReusing
    (verified : Nat)
    (gate : Except String (Option FileGate))
    (view : Observation)
    (state : BuildState) : Action BuildState :=
  let state :=
    { state with
      progress := { state.progress with indexed := verified } }
  (beginActivation generation state.progress gate).bind
    fun result =>
      match result with
      | Except.ok true =>
          emit generation .reusing view state
      | Except.ok false => .done (state.fail cancelledMessage)
      | Except.error message => .done (state.fail message)

/- The private work of a session. -/
def routeSteps :
    Route → List (BuildState → Action BuildState)
| .reuse verified gate view _ =>
    [emitReusing generation verified gate view]
| .rebuild script =>
    attempt script.openFailure ::
      script.writes.map (buildStep generation) ++
      [emit generation .validating script.validating,
        attempt script.validateFailure,
        emit generation .checkpointing script.checkpointing,
        attempt script.finishFailure,
        fun state =>
          .done
            (state.checkpointed script.walFrames
              script.checkpointedFrames),
        emit generation .checkpointing script.checkpointed,
        attempt script.syncFailure]

/- The commit, the one effect on the published catalog. -/
def commit (state : BuildState) : Action BuildState :=
  .perform .publish (.done state)

/- A reuse reads the rejected documents behind its commit. -/
def readRejected : Route → BuildState → Action BuildState
| .reuse _ _ _ (Except.ok rejectedDocuments), state =>
    .done { state with rejectedDocuments }
| .reuse _ _ _ (Except.error message), state =>
    .done (state.fail message)
| .rebuild _, state =>
    .done
      { state with
        rejectedDocuments :=
          sortedUnique state.rejectedDocuments }

/- `CatalogBuildSession::run`. -/
def sessionSteps (script : SessionScript) :
    List (BuildState → Action BuildState) :=
  attempt script.openFailure ::
    routeSteps generation script.route ++
    [emit generation .checking script.checking,
      attempt script.lockFailure,
      emit generation .publishing script.publishing,
      attempt script.commitFailure,
      commit,
      readRejected script.route]

/- The report of a finished build. -/
def completeReport (state : BuildState) : RefreshReport where
  indexedDocuments := state.progress.indexed
  rejectedDocuments := state.rejectedDocuments
  committedGeneration := generation
  state := stateOfRejected state.rejectedDocuments

def failureMessage
    (message : String) : String :=
  if state.sourceChanged then
    "workspace sources changed before catalog " ++
      "publication; rebuild required"
  else
    message

/- `StorageObserver::finish` and the end of the thread. -/
def finish (state : BuildState) : Action Unit :=
  match state.failure with
  | none =>
      .perform
        (.send
          (.complete generation
            (completeReport generation state)
            state.progress))
        (.done ())
  | some message =>
      .load fun control =>
        if control = .cancelled then
          .perform
            (.send (.cancelled generation state.progress))
            (.done ())
        else
          .perform
            (.send
              (.failed generation state.progress
                (failureMessage state message)))
            (.done ())

----------
-- Scanning
----------

/- One step of the directory scan. -/
inductive ScanStep where
| poll
| count (discovered rejected policySkipped ignored : Nat)
| rejectSource (uri : String)
| report
| fail (message : String)

/- What the scan has found. -/
structure ScanState where
  progress : CatalogProgress
  rejectedUris : List String

def ScanState.count
    (state : ScanState)
    (discovered rejected policySkipped ignored : Nat) :
    ScanState :=
  let progress := state.progress
  { state with
    progress :=
      { progress with
        discovered := progress.discovered + discovered
        rejected := progress.rejected + rejected
        policySkipped :=
          progress.policySkipped + policySkipped
        ignored := progress.ignored + ignored } }

def ScanState.rejectSource
    (state : ScanState)
    (uri : String) : ScanState :=
  { progress :=
      { state.progress with
        rejected := state.progress.rejected + 1 }
    rejectedUris := state.rejectedUris ++ [uri] }

/- A cancelled or failed scan sends its terminal update. -/
def scan :
    List ScanStep → ScanState → Action (Option ScanState)
| [], state => .done (some state)
| .poll :: rest, state =>
    .load fun control =>
      if control = .cancelled then
        .perform
          (.send (.cancelled generation state.progress))
          (.done none)
      else
        scan rest state
| .count discovered rejected policySkipped ignored :: rest,
    state =>
    scan rest
      (state.count discovered rejected policySkipped ignored)
| .rejectSource uri :: rest, state =>
    scan rest (state.rejectSource uri)
| .report :: rest, state =>
    .perform (.send (.progress generation state.progress))
      (scan rest state)
| .fail message :: _, state =>
    .perform
      (.send (.failed generation state.progress message))
      (.done none)

structure WorkerScript where
  scan : List ScanStep
  spawnFailure : Option String
  session : SessionScript

/- The state in which a build starts. -/
def startBuild (state : ScanState) : BuildState where
  storage := ⟨.writing, 0, 0, 0, 0⟩
  progress :=
    { state.progress with
      totalFiles := some state.progress.discovered }
  pendingDocuments := 0
  rejectedDocuments := state.rejectedUris
  sourceChanged := false
  failure := none

/- The build behind a finished scan. -/
def buildCatalog
    (script : WorkerScript)
    (state : ScanState) : Action Unit :=
  let start := startBuild state
  match script.spawnFailure with
  | some message =>
      .perform
        (.send (.failed generation start.progress message))
        (.done ())
  | none =>
      (runSteps (sessionSteps generation script.session)
        start).bind (finish generation)

/- `scan_workspace` on its own thread. -/
def catalogWorker (script : WorkerScript) : Action Unit :=
  .perform (.send (.progress generation {}))
    ((scan generation script.scan ⟨{}, []⟩).bind fun scanned =>
      match scanned with
      | some state => buildCatalog generation script state
      | none => .done ())

/- A panic of the thread is reported as a failure. -/
def panicReport : Action Unit :=
  .perform
    (.send
      (.failed generation {} "catalog worker panicked"))
    (.done ())

end Worker

end Sidecar

end ArktsServer
