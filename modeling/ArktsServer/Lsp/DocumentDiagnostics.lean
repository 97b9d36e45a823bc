import ArktsServer.Lib.OrderedMap
import ArktsServer.Lib.Transition

/-
  The diagnostics of the open documents of an editor: each
  document has at most one diagnosis at a time, suspensions
  defer documents, and a refresh of a workspace diagnoses
  all of its open documents again after a delay.

  Handlers run to their next await without interruption.
  The steps are the calls of the interface, the timers, and
  the settling of `diagnose` and of `sendDiagnostics`.

  Key definitions include:
    * `Lsp.Diagnosis`
    * `Lsp.DocumentDiagnostics`
    * `DocumentDiagnostics.cancel`, `DocumentDiagnostics.update`
    * `DocumentDiagnostics.scheduleRefresh`
    * `DocumentDiagnostics.diagnosed`
    * `DocumentDiagnostics.suspend`, `DocumentDiagnostics.release`
    * `Lsp.diagnosticsStep`
-/

namespace ArktsServer

namespace Lsp

----------
-- State
----------

structure TextDocument where
  uri : String
  version : Int
deriving DecidableEq

structure DocumentSnapshot where
  uri : String
  version : Int
  workspaceId : String
deriving DecidableEq

/- Where the callback of a timer stands. -/
inductive DiagnosisPhase where
| scheduled
| diagnosing
| sending
| finished
deriving DecidableEq

/-
  A `PendingDiagnostics` with what its callback captures.
  Whether its workspace has been refreshed since is recorded
  for the proofs only.
-/
structure Diagnosis where
  document : DocumentSnapshot
  epoch : Nat
  phase : DiagnosisPhase := .scheduled
  aborted : Bool := false
  started : Bool := false
  settled : Bool := false
  refreshed : Bool := false
deriving DecidableEq

/- A call of `suspend`, with the diagnoses it waits for. -/
structure Suspension where
  quiescence : List Nat
  released : Bool := false
deriving DecidableEq

/- A version of a document in an epoch of its workspace. -/
structure Inspection where
  uri : String
  version : Int
  epoch : Nat
deriving DecidableEq

/-
  What the connection is told.  Diagnostics come with the
  version that was open then, and with the mark of their
  diagnosis.
-/
inductive Output where
| diagnostics
    (document : DocumentSnapshot)
    (openVersion : Option Int)
    (refreshed : Bool)
| cleared (uri : String)
| error (document : DocumentSnapshot)
deriving DecidableEq

/-
  The identity of a diagnosis is its position.  The last two
  fields are for the proofs: what was told to the client, and
  the requested inspections that have no answer.
-/
structure DocumentDiagnostics where
  documents : OrderedMap String Int := .empty
  diagnoses : List Diagnosis := []
  pending : OrderedMap String Nat := .empty
  deferredUris : List String := []
  workspaceEpochs : OrderedMap String Nat := .empty
  dirtyWorkspaces : OrderedMap String Nat := .empty
  refreshTimer : Option Nat := none
  suspensionCount : Nat := 0
  disposed : Bool := false
  quiescence : List Nat := []
  suspensions : List Suspension := []
  outputs : List Output := []
  awaited : List Inspection := []

/- How a promise of a diagnosis settles. -/
inductive Settlement where
| value
| contentModified
| failure
deriving DecidableEq

/- An answer of the engine. -/
structure SemanticResult where
  documentVersion : Int
deriving DecidableEq

/- Every engine answers for the version it was asked about. -/
def engineResult (document : DocumentSnapshot) : SemanticResult :=
  ⟨document.version⟩

def diagnosticDelayMs : Nat := 75

section Operations

variable (workspaceOf : String → String)

def snapshot (document : TextDocument) : DocumentSnapshot :=
  ⟨document.uri, document.version, workspaceOf document.uri⟩

namespace DocumentDiagnostics

variable (state : DocumentDiagnostics)

/- `workspaceEpochs.get(workspaceId) ?? 0`. -/
def epoch
    (workspaceId : String) : Nat :=
  (state.workspaceEpochs.get workspaceId).getD 0

def isCurrentWorkspace
    (diagnosis : Diagnosis) : Bool :=
  decide
    (diagnosis.epoch =
      state.epoch diagnosis.document.workspaceId)

/- `documents.all()`. -/
def allDocuments (state : DocumentDiagnostics) :
    List TextDocument :=
  state.documents.entries.map fun entry => ⟨entry.1, entry.2⟩

def defer
    (uri : String) : DocumentDiagnostics :=
  { state with
    deferredUris :=
      if uri ∈ state.deferredUris then state.deferredUris
      else state.deferredUris ++ [uri] }

/- The open version of a document is asked for. -/
def await
    (document : TextDocument) : DocumentDiagnostics :=
  { state with
    awaited :=
      state.awaited ++
        [⟨document.uri, document.version,
          state.epoch (workspaceOf document.uri)⟩] }

/- An inspection is answered. -/
def answer
    (diagnosis : Diagnosis) : DocumentDiagnostics :=
  { state with
    awaited :=
      state.awaited.filter
        (· ≠ ⟨diagnosis.document.uri,
          diagnosis.document.version, diagnosis.epoch⟩) }

----------
-- Diagnoses
----------

/-
  A cancelled diagnosis is aborted.  Its timer is cleared, so
  one that had not started never starts.
-/
def cancel
    (documentUri : String) : DocumentDiagnostics :=
  match state.pending.get documentUri with
  | none => state
  | some id =>
      { state with
        diagnoses :=
          state.diagnoses.modify id fun diagnosis =>
            { diagnosis with
              aborted := true
              settled :=
                diagnosis.settled || !diagnosis.started }
        pending := state.pending.delete documentUri }

/- The diagnosis that `update` hands to its timer. -/
def schedule
    (document : TextDocument) : DocumentDiagnostics :=
  { state with
    diagnoses :=
      state.diagnoses ++
        [{ document := snapshot workspaceOf document
           epoch := state.epoch (workspaceOf document.uri) }]
    pending :=
      state.pending.set document.uri state.diagnoses.length }

def update
    (document : TextDocument) : DocumentDiagnostics :=
  let cancelled :=
    (state.await workspaceOf document).cancel document.uri
  if cancelled.disposed then
    cancelled
  else if 0 < cancelled.suspensionCount then
    cancelled.defer document.uri
  else
    cancelled.schedule workspaceOf document

variable (id : Nat)

/- The `finally` of a diagnosis. -/
def finish
    (diagnosis : Diagnosis) : DocumentDiagnostics :=
  { state with
    diagnoses :=
      state.diagnoses.modify id fun diagnosis =>
        { diagnosis with phase := .finished, settled := true }
    pending :=
      if state.pending.get diagnosis.document.uri = some id
      then state.pending.delete diagnosis.document.uri
      else state.pending }

def enter
    (phase : DiagnosisPhase) : DocumentDiagnostics :=
  { state with
    diagnoses :=
      state.diagnoses.modify id fun diagnosis =>
        { diagnosis with phase := phase } }

/- The timer of a diagnosis fires, unless it was cleared. -/
def timerFired
    (diagnosis : Diagnosis) : DocumentDiagnostics :=
  if diagnosis.phase = .scheduled ∧
      diagnosis.aborted = false then
    let begun :=
      if state.pending.get diagnosis.document.uri = some id
      then
        { state with
          diagnoses :=
            state.diagnoses.modify id fun diagnosis =>
              { diagnosis with started := true } }
      else state
    if begun.isCurrentWorkspace diagnosis then
      begun.enter id .diagnosing
    else
      begun.finish id diagnosis
  else state

/- The `catch` of a diagnosis, without the `finally`. -/
def caught
    (diagnosis : Diagnosis)
    (contentModified : Bool) : DocumentDiagnostics :=
  let uri := diagnosis.document.uri
  let current := state.documents.get uri
  if contentModified = true ∧
      state.isCurrentWorkspace diagnosis = false then
    state
  else if diagnosis.aborted = false ∧
      state.disposed = false ∧
      state.isCurrentWorkspace diagnosis = true ∧
      current.isSome = true ∧
      state.pending.get uri = some id ∧
      contentModified = true then
    match current with
    | some version => state.update workspaceOf ⟨uri, version⟩
    | none => state
  else if diagnosis.aborted = false then
    let logged :=
      { state with
        outputs :=
          state.outputs ++ [.error diagnosis.document] }
    if contentModified then logged
    else logged.answer diagnosis
  else state

/- `diagnose` settles. -/
def diagnosed
    (diagnosis : Diagnosis)
    (settlement : Settlement) : DocumentDiagnostics :=
  if diagnosis.phase = .diagnosing then
    match settlement with
    | .value =>
        let document := diagnosis.document
        let current := state.documents.get document.uri
        if diagnosis.aborted = true ∨
            state.isCurrentWorkspace diagnosis = false ∨
            state.pending.get document.uri ≠ some id ∨
            current ≠ some document.version ∨
            (engineResult document).documentVersion ≠
              document.version then
          state.finish id diagnosis
        else
          { (state.answer diagnosis).enter id .sending with
            outputs :=
              state.outputs ++
                [.diagnostics document current
                  diagnosis.refreshed] }
    | .contentModified =>
        (state.caught workspaceOf id diagnosis true).finish
          id diagnosis
    | .failure =>
        (state.caught workspaceOf id diagnosis false).finish
          id diagnosis
  else state

/- `sendDiagnostics` settles. -/
def diagnosticsSent
    (diagnosis : Diagnosis)
    (settlement : Settlement) : DocumentDiagnostics :=
  if diagnosis.phase = .sending then
    match settlement with
    | .value => state.finish id diagnosis
    | .contentModified =>
        (state.caught workspaceOf id diagnosis true).finish
          id diagnosis
    | .failure =>
        (state.caught workspaceOf id diagnosis false).finish
          id diagnosis
  else state

/- A step of the diagnosis with an identity. -/
def ofDiagnosis
    (step : Diagnosis → DocumentDiagnostics) :
    DocumentDiagnostics :=
  (state.diagnoses[id]?).elim state step

----------
-- Workspaces
----------

def scheduleRefresh (state : DocumentDiagnostics) :
    DocumentDiagnostics :=
  if state.disposed = true ∨ 0 < state.suspensionCount then
    state
  else
    match state.dirtyWorkspaces.values.min? with
    | none => state
    | some nextDue =>
        { state with refreshTimer := some nextDue }

/- `due <= now`, for the workspaces that are dirty. -/
def dueWorkspaces
    (now : Nat) : List String :=
  (state.dirtyWorkspaces.filter fun entry =>
    entry.2 ≤ now).keys

def takeDue
    (now : Nat) : DocumentDiagnostics :=
  { state with
    refreshTimer := none
    dirtyWorkspaces :=
      state.dirtyWorkspaces.filter fun entry =>
        now < entry.2 }

/- The callback of the refresh timer. -/
def refreshFired
    (now : Nat) : DocumentDiagnostics :=
  if state.refreshTimer.isSome then
    scheduleRefresh
      ((state.allDocuments.filter fun document =>
          workspaceOf document.uri ∈
            state.dueWorkspaces now).foldl
        (update workspaceOf) (state.takeDue now))
  else state

/- Every open document of the workspace is asked for anew. -/
def awaitWorkspace
    (workspaceId : String) : DocumentDiagnostics :=
  { state with
    diagnoses :=
      state.diagnoses.map fun diagnosis =>
        if diagnosis.document.workspaceId = workspaceId then
          { diagnosis with refreshed := true }
        else diagnosis
    awaited :=
      state.awaited ++
        (state.allDocuments.filter fun document =>
          workspaceOf document.uri = workspaceId).map
            fun document =>
              ⟨document.uri, document.version,
                state.epoch workspaceId + 1⟩ }

def refreshWorkspace
    (workspaceId : String)
    (now : Nat) : DocumentDiagnostics :=
  let asked := state.awaitWorkspace workspaceOf workspaceId
  if asked.disposed then
    asked
  else
    scheduleRefresh
      { asked with
        workspaceEpochs :=
          asked.workspaceEpochs.set workspaceId
            (asked.epoch workspaceId + 1)
        dirtyWorkspaces :=
          asked.dirtyWorkspaces.set workspaceId
            (now + diagnosticDelayMs) }

----------
-- Documents
----------

/- A document is opened or edited. -/
def changed
    (document : TextDocument) : DocumentDiagnostics :=
  { state with
    documents :=
      state.documents.set document.uri document.version
    awaited :=
      state.awaited.filter (·.uri ≠ document.uri) }

/- A document is closed, and the diagnostics are told. -/
def close
    (documentUri : String) : DocumentDiagnostics :=
  let cancelled :=
    { state with
      documents := state.documents.delete documentUri
      awaited :=
        state.awaited.filter (·.uri ≠ documentUri)
      }.cancel documentUri
  { cancelled with
    deferredUris :=
      cancelled.deferredUris.filter (· ≠ documentUri)
    outputs := cancelled.outputs ++ [.cleared documentUri] }

----------
-- Suspensions
----------

/- One more suspension waits for what is pending. -/
def beginSuspension (state : DocumentDiagnostics) :
    DocumentDiagnostics :=
  let quiescence := state.quiescence ++ state.pending.values
  { state with
    suspensionCount := state.suspensionCount + 1
    refreshTimer := none
    quiescence := quiescence
    suspensions :=
      state.suspensions ++ [{ quiescence := quiescence }] }

def suspend (state : DocumentDiagnostics) :
    DocumentDiagnostics :=
  state.pending.keys.foldl
    (fun state uri => (state.defer uri).cancel uri)
    state.beginSuspension

/- `await quiescence` has returned. -/
def quiescent
    (suspension : Suspension) : Bool :=
  suspension.quiescence.all fun id =>
    (state.diagnoses[id]?).all (·.settled)

def endSuspension
    (index : Nat) : DocumentDiagnostics :=
  { state with
    suspensionCount := state.suspensionCount - 1
    suspensions :=
      state.suspensions.modify index fun suspension =>
        { suspension with released := true } }

/- A refresh of the workspace will update the document, too. -/
def resume
    (uri : String) : DocumentDiagnostics :=
  match state.documents.get uri with
  | some version =>
      if (state.dirtyWorkspaces.get
          (workspaceOf uri)).isNone then
        state.update workspaceOf ⟨uri, version⟩
      else state
  | none => state

/- The function that `suspend` returns. -/
def release
    (index : Nat) : DocumentDiagnostics :=
  if (state.suspensions[index]?).any fun suspension =>
      !suspension.released && state.quiescent suspension
  then
    let released := state.endSuspension index
    if released.disposed = true ∨
        0 < released.suspensionCount then
      released
    else
      scheduleRefresh
        (released.deferredUris.foldl (resume workspaceOf)
          { released with deferredUris := [] })
  else state

def dispose (state : DocumentDiagnostics) :
    DocumentDiagnostics :=
  state.pending.keys.foldl cancel
    { state with
      disposed := true
      deferredUris := []
      dirtyWorkspaces := .empty
      workspaceEpochs := .empty
      refreshTimer := none }

end DocumentDiagnostics

----------
-- Steps
----------

inductive DiagnosticsEvent where
| changed (document : TextDocument)
| update (uri : String)
| refreshWorkspace (workspaceId : String) (now : Nat)
| close (uri : String)
| suspend
| release (index : Nat)
| dispose
| timerFired (id : Nat)
| diagnosed (id : Nat) (settlement : Settlement)
| diagnosticsSent (id : Nat) (settlement : Settlement)
| refreshFired (now : Nat)
deriving DecidableEq

/- `update` is called with open documents. -/
def diagnosticsStep
    (state : DocumentDiagnostics) :
    DiagnosticsEvent → DocumentDiagnostics
| .changed document => state.changed document
| .update uri =>
    (state.documents.get uri).elim state fun version =>
      state.update workspaceOf ⟨uri, version⟩
| .refreshWorkspace workspaceId now =>
    state.refreshWorkspace workspaceOf workspaceId now
| .close uri => state.close uri
| .suspend => state.suspend
| .release index => state.release workspaceOf index
| .dispose => state.dispose
| .timerFired id =>
    state.ofDiagnosis id (state.timerFired id)
| .diagnosed id settlement =>
    state.ofDiagnosis id fun diagnosis =>
      state.diagnosed workspaceOf id diagnosis settlement
| .diagnosticsSent id settlement =>
    state.ofDiagnosis id fun diagnosis =>
      state.diagnosticsSent workspaceOf id diagnosis
        settlement
| .refreshFired now => state.refreshFired workspaceOf now

end Operations

end Lsp

end ArktsServer
