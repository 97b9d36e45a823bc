import ArktsServer.Core.SharedTypes

/-
  The wire protocol between the semantic supervisor and its
  worker: the commands, the byte accounting of a message,
  and the checks that a command passes before it is sent.

  A JavaScript string is the list of its UTF-16 code units
  where its bytes are counted.  JSON values stay texts.
  Request identifiers and revisions are natural numbers.

  Key definitions include:
    * `Semantic.SemanticWorkerErrorCode`
    * `Semantic.RootSemanticWorkerMutationInput`
    * `Semantic.RootSemanticWorkerRequestInput`
    * `Semantic.WorkerProtocol`
    * `Semantic.wireMutation`
    * `Semantic.canonicalMutationInput`

  Correctness is proven by:
    * `Semantic.canonicalMutationInput_eq`
    * `Semantic.wireMutation_eq`
-/

namespace ArktsServer

namespace Semantic

----------
-- Errors and Cancellation
----------

inductive SemanticWorkerErrorCode where
| clientCancelled
| contentModified
| invalidRequest
| workspaceIncomplete
| queueOverflow
| workerUnavailable
| restartRequired
| internalError
deriving DecidableEq

/- What a codec function throws. -/
inductive SemanticWorkerProtocolError where
| invalidMutation
| documentTextTooLarge
| messageTooLarge
deriving DecidableEq

/- The reasons for which a request is cancelled. -/
inductive SemanticWorkerTerminalCancellationState where
| clientCancelled
| contentModified
| supervisorDisposing
deriving DecidableEq

/- A cancellation cell; `none` is the state `active`. -/
abbrev SemanticWorkerCancellationCell :=
  Option SemanticWorkerTerminalCancellationState

/- `Atomics.compareExchange` from the state `active`. -/
def cancelCell
    (cell : SemanticWorkerCancellationCell)
    (reason : SemanticWorkerTerminalCancellationState) :
    SemanticWorkerCancellationCell :=
  some (cell.getD reason)

/- The code with which a cancelled request is rejected. -/
def cancellationError :
    SemanticWorkerTerminalCancellationState →
      SemanticWorkerErrorCode
| .clientCancelled => .clientCancelled
| .contentModified => .contentModified
| .supervisorDisposing => .workerUnavailable

@[simp]
theorem cancelCell_ne_none
    (cell : SemanticWorkerCancellationCell)
    (reason : SemanticWorkerTerminalCancellationState) :
    cancelCell cell reason ≠ none := by
  unfold cancelCell
  exact Option.some_ne_none _

----------
-- Byte Accounting
----------

def maxSemanticWorkerTextBytes : Nat := 4 * 1024 * 1024

def maxSemanticWorkerMessageBytes : Nat := 8 * 1024 * 1024

def maxSemanticWorkerFileChanges : Nat := 1024

abbrev Uri := String

/- The UTF-16 code units of a JavaScript string. -/
abbrev CodeUnits := List UInt16

/- The bytes of a string, raw and as a JSON string. -/
structure ByteMetrics where
  rawBytes : Nat
  wireBytes : Nat
deriving DecidableEq

def ByteMetrics.add
    (metrics more : ByteMetrics) :
    ByteMetrics :=
  { rawBytes := metrics.rawBytes + more.rawBytes
    wireBytes := metrics.wireBytes + more.wireBytes }

def isHighSurrogate
    (code : UInt16) :
    Bool :=
  0xd800 ≤ code && code ≤ 0xdbff

def isLowSurrogate
    (code : UInt16) :
    Bool :=
  0xdc00 ≤ code && code ≤ 0xdfff

/- A code unit outside a surrogate pair. -/
def codeUnitBytes
    (code : UInt16) :
    ByteMetrics :=
  if code ∈ ([0x22, 0x5c, 0x08, 0x09, 0x0a, 0x0c, 0x0d] :
      CodeUnits) then
    ⟨1, 2⟩
  else if code < 0x20 then
    ⟨1, 6⟩
  else if code < 0x80 then
    ⟨1, 1⟩
  else if code < 0x800 then
    ⟨2, 2⟩
  else if isHighSurrogate code || isLowSurrogate code then
    ⟨3, 6⟩
  else
    ⟨3, 3⟩

def surrogatePairBytes : ByteMetrics := ⟨4, 4⟩

/- The bytes of all code units, with no limit. -/
def byteMetrics : CodeUnits → ByteMetrics
| [] => ⟨0, 2⟩
| [code] => (codeUnitBytes code).add ⟨0, 2⟩
| code :: next :: rest =>
    if isHighSurrogate code && isLowSurrogate next then
      surrogatePairBytes.add (byteMetrics rest)
    else
      (codeUnitBytes code).add (byteMetrics (next :: rest))

/- `Buffer.byteLength`, which counts UTF-8 bytes. -/
def byteLength
    (text : CodeUnits) :
    Nat :=
  (byteMetrics text).rawBytes

/-
  The limits of `stringByteMetrics`, checked after a code
  unit has been counted.
-/
def checkedMetrics
    (maxRawBytes maxWireBytes : Nat)
    (onRawLimit onWireLimit : SemanticWorkerProtocolError)
    (metrics : ByteMetrics) :
    Except SemanticWorkerProtocolError ByteMetrics :=
  if maxRawBytes < metrics.rawBytes then
    .error onRawLimit
  else if maxWireBytes < metrics.wireBytes then
    .error onWireLimit
  else
    .ok metrics

def stringByteMetricsFrom
    (maxRawBytes maxWireBytes : Nat)
    (onRawLimit onWireLimit : SemanticWorkerProtocolError) :
    CodeUnits → ByteMetrics →
      Except SemanticWorkerProtocolError ByteMetrics
| [], metrics => .ok metrics
| [code], metrics =>
    checkedMetrics maxRawBytes maxWireBytes
      onRawLimit onWireLimit
      (metrics.add (codeUnitBytes code))
| code :: next :: rest, metrics =>
    if isHighSurrogate code && isLowSurrogate next then do
      let counted ←
        checkedMetrics maxRawBytes maxWireBytes
          onRawLimit onWireLimit
          (metrics.add surrogatePairBytes)
      stringByteMetricsFrom maxRawBytes maxWireBytes
        onRawLimit onWireLimit rest counted
    else do
      let counted ←
        checkedMetrics maxRawBytes maxWireBytes
          onRawLimit onWireLimit
          (metrics.add (codeUnitBytes code))
      stringByteMetricsFrom maxRawBytes maxWireBytes
        onRawLimit onWireLimit (next :: rest) counted

def stringByteMetrics
    (text : CodeUnits)
    (maxRawBytes maxWireBytes : Nat)
    (onRawLimit onWireLimit : SemanticWorkerProtocolError) :
    Except SemanticWorkerProtocolError ByteMetrics :=
  if maxWireBytes < 2 then
    .error onWireLimit
  else
    stringByteMetricsFrom maxRawBytes maxWireBytes
      onRawLimit onWireLimit text ⟨0, 2⟩

/- The code units of a string of scalar values. -/
def codeUnits
    (text : String) :
    CodeUnits :=
  text.toList.flatMap fun char =>
    if char.toNat < 0x10000 then
      [UInt16.ofNat char.toNat]
    else
      [UInt16.ofNat (0xd800 + (char.toNat - 0x10000) / 0x400),
        UInt16.ofNat
          (0xdc00 + (char.toNat - 0x10000) % 0x400)]

def jsonStringWireBytes
    (text : String)
    (maxBytes : Nat) :
    Except SemanticWorkerProtocolError Nat := do
  let metrics ←
    stringByteMetrics (codeUnits text) maxSafeInteger maxBytes
      .messageTooLarge .messageTooLarge
  .ok metrics.wireBytes

def messageStringWireBytes
    (text : String) :
    Except SemanticWorkerProtocolError Nat :=
  jsonStringWireBytes text maxSemanticWorkerMessageBytes

def numberWireBytes
    (value : Nat) :
    Nat :=
  (Nat.toDigits 10 value).length

def booleanWireBytes
    (value : Bool) :
    Nat :=
  if value then 4 else 5

/- The loop of `jsonObjectWireBytes` over the fields. -/
def jsonObjectWireBytesFrom
    (maxBytes : Nat) :
    List (String × Nat) → Nat →
      Except SemanticWorkerProtocolError Nat
| [], bytes => .ok bytes
| (name, valueBytes) :: fields, bytes =>
    if maxBytes < bytes + 1 + valueBytes then
      .error .messageTooLarge
    else do
      let nameBytes ←
        jsonStringWireBytes name
          (maxBytes - bytes - 1 - valueBytes)
      jsonObjectWireBytesFrom maxBytes fields
        (bytes + (nameBytes + 1 + valueBytes))

def jsonObjectWireBytes
    (fields : List (String × Nat))
    (maxBytes : Nat) :
    Except SemanticWorkerProtocolError Nat :=
  if maxBytes < 2 + (fields.length - 1) then
    .error .messageTooLarge
  else
    jsonObjectWireBytesFrom maxBytes fields
      (2 + (fields.length - 1))

def assertMessageEnvelope
    (fields : List (String × Nat)) :
    Except SemanticWorkerProtocolError Unit := do
  let _ ← jsonObjectWireBytes fields maxSemanticWorkerMessageBytes
  .ok ()

----------
-- Commands
----------

inductive FileChangeKind where
| created
| changed
| deleted
deriving DecidableEq

structure SemanticWorkerWorkspaceFileChange where
  uri : Uri
  kind : FileChangeKind
deriving DecidableEq

/- The fields of a `workspaceFilesChanged` mutation. -/
structure WorkspaceFilesChanged where
  rootUri : Uri
  rootDirty : Bool
  configurationChanged : Option Bool := none
  resourceDirty : Bool
  resourceChanged : Bool
  changes : List SemanticWorkerWorkspaceFileChange
deriving DecidableEq

inductive DocumentMutationKind where
| opened
| changed
| closed
deriving DecidableEq

/-
  The fields of a document mutation.  A close has no text,
  and the empty list stands for it.
-/
structure DocumentMutation where
  kind : DocumentMutationKind
  uri : Uri
  documentVersion : Nat
  text : CodeUnits := []
deriving DecidableEq

inductive RootSemanticWorkerMutationInput where
| document (mutation : DocumentMutation)
| workspaceFilesChanged (files : WorkspaceFilesChanged)
deriving DecidableEq

inductive SemanticWorkerMethod where
| complete
| resolveCompletion
| define
| typeDefinitions
| implementations
| references
| prepareRename
| rename
| documentHighlights
| inlayHints
| foldingRanges
| formatDocument
| documentSymbols
| diagnose
| codeActions
| resolveCodeAction
| hover
| signatureHelp
| prepareCallHierarchy
| outgoingCalls
| incomingCalls
| semanticReadiness
deriving DecidableEq

abbrev JsonText := String

structure RootSemanticWorkerRequestInput where
  method : SemanticWorkerMethod
  uri : Uri
  expectedDocumentVersion : Option Nat
  args : JsonText
  diskSource : Option CodeUnits := none
deriving DecidableEq

structure SemanticWorkerMutation where
  epoch : Nat
  revision : Nat
  input : RootSemanticWorkerMutationInput
deriving DecidableEq

structure SemanticWorkerRequest where
  epoch : Nat
  id : Nat
  requiredRevision : Nat
  input : RootSemanticWorkerRequestInput
deriving DecidableEq

/- The commands that the endpoint sends to the worker. -/
inductive SemanticWorkerCommand where
| mutation (mutation : SemanticWorkerMutation)
| request (request : SemanticWorkerRequest)
deriving DecidableEq

structure SemanticWorkerMutationAck where
  epoch : Nat
  appliedRevision : Nat
deriving DecidableEq

structure SemanticWorkerResponse where
  epoch : Nat
  id : Nat
  appliedRevision : Nat
  documentVersion : Option Nat
  result : Except SemanticWorkerErrorCode JsonText
deriving DecidableEq

/-
  A message of the worker.  A malformed message may still
  carry an `id` that the supervisor routes it by.
-/
inductive WorkerMessage where
| ack (ack : SemanticWorkerMutationAck)
| response (response : SemanticWorkerResponse)
| malformed (id : Option Nat)
deriving DecidableEq

/-
  The parts of the protocol that the model leaves open: the
  reading of URIs, the checks of request arguments, disk
  texts and result values, and the size of a request as
  JSON.
-/
structure WorkerProtocol where
  isCanonicalSemanticWorkerFileUri : Uri → Bool
  isUriWithinRoot : Uri → Uri → Bool
  decodesArguments : RootSemanticWorkerRequestInput → Bool
  inputBytes : RootSemanticWorkerRequestInput → Nat
  decodesValue :
    SemanticWorkerMethod → Uri → JsonText → Bool

----------
-- Mutations on the Wire
----------

section Wire

variable (protocol : WorkerProtocol)

def DocumentMutationKind.name : DocumentMutationKind → String
| .opened => "open"
| .changed => "change"
| .closed => "close"

def FileChangeKind.name : FileChangeKind → String
| .created => "created"
| .changed => "changed"
| .deleted => "deleted"

/- The `text` field of the envelope, absent for a close. -/
def documentTextField
    (mutation : DocumentMutation) :
    Except SemanticWorkerProtocolError (List (String × Nat)) :=
  if mutation.kind = .closed then
    .ok []
  else do
    let metrics ←
      stringByteMetrics mutation.text
        maxSemanticWorkerTextBytes maxSemanticWorkerMessageBytes
        .documentTextTooLarge .messageTooLarge
    .ok [("text", metrics.wireBytes)]

/- `decodeSemanticWorkerMutation` on a document mutation. -/
def decodeDocumentMutation
    (epoch revision : Nat)
    (mutation : DocumentMutation) :
    Except SemanticWorkerProtocolError SemanticWorkerMutation :=
  if epoch = 0 ∨ revision = 0
      ∨ !protocol.isCanonicalSemanticWorkerFileUri mutation.uri
      ∨ maxSafeInteger < mutation.documentVersion then
    .error .invalidMutation
  else do
    let textField ← documentTextField mutation
    let kindBytes ← messageStringWireBytes mutation.kind.name
    let uriBytes ← messageStringWireBytes mutation.uri
    assertMessageEnvelope
      ([("protocol", numberWireBytes 2),
        ("epoch", numberWireBytes epoch),
        ("revision", numberWireBytes revision),
        ("kind", kindBytes),
        ("uri", uriBytes),
        ("documentVersion",
          numberWireBytes mutation.documentVersion)]
        ++ textField)
    .ok ⟨epoch, revision, .document mutation⟩

/- The loop of `decodeWorkspaceFileChanges`. -/
def workspaceFileChangesWireBytes
    (rootUri : Uri) :
    List SemanticWorkerWorkspaceFileChange → Nat →
      Except SemanticWorkerProtocolError Nat
| [], wireBytes => .ok wireBytes
| change :: changes, wireBytes =>
    if !protocol.isCanonicalSemanticWorkerFileUri change.uri
        ∨ !protocol.isUriWithinRoot change.uri rootUri then
      .error .invalidMutation
    else do
      let uriBytes ← messageStringWireBytes change.uri
      let kindBytes ← messageStringWireBytes change.kind.name
      let changeBytes ←
        jsonObjectWireBytes
          [("uri", uriBytes), ("kind", kindBytes)]
          (maxSemanticWorkerMessageBytes - wireBytes)
      if maxSemanticWorkerMessageBytes
          < wireBytes + changeBytes then
        .error .messageTooLarge
      else
        workspaceFileChangesWireBytes rootUri changes
          (wireBytes + changeBytes)

def decodeWorkspaceFileChanges
    (files : WorkspaceFilesChanged) :
    Except SemanticWorkerProtocolError Nat :=
  if maxSemanticWorkerFileChanges < files.changes.length then
    .error .invalidMutation
  else
    workspaceFileChangesWireBytes protocol files.rootUri
      files.changes (2 + (files.changes.length - 1))

/- The `configurationChanged` field, where it is present. -/
def configurationField
    (files : WorkspaceFilesChanged) :
    List (String × Nat) :=
  match files.configurationChanged with
  | none => []
  | some changed =>
      [("configurationChanged", booleanWireBytes changed)]

def decodeWorkspaceFilesChangedMutation
    (epoch revision : Nat)
    (files : WorkspaceFilesChanged) :
    Except SemanticWorkerProtocolError SemanticWorkerMutation :=
  if epoch = 0 ∨ revision = 0
      ∨ !protocol.isCanonicalSemanticWorkerFileUri files.rootUri
      ∨ (files.configurationChanged = some true
        ∧ !files.rootDirty)
      ∨ (files.resourceDirty ∧ !files.resourceChanged) then
    .error .invalidMutation
  else do
    let changesBytes ← decodeWorkspaceFileChanges protocol files
    if !files.rootDirty && !files.resourceChanged
        && files.changes.isEmpty then
      .error .invalidMutation
    else do
      let kindBytes ←
        messageStringWireBytes "workspaceFilesChanged"
      let rootBytes ← messageStringWireBytes files.rootUri
      assertMessageEnvelope
        ([("protocol", numberWireBytes 2),
          ("epoch", numberWireBytes epoch),
          ("revision", numberWireBytes revision),
          ("kind", kindBytes),
          ("rootUri", rootBytes),
          ("rootDirty", booleanWireBytes files.rootDirty)]
          ++ configurationField files
          ++ [("resourceDirty",
              booleanWireBytes files.resourceDirty),
            ("resourceChanged",
              booleanWireBytes files.resourceChanged),
            ("changes", changesBytes)])
      .ok ⟨epoch, revision, .workspaceFilesChanged files⟩

def wireMutation
    (epoch revision : Nat) :
    RootSemanticWorkerMutationInput →
      Except SemanticWorkerProtocolError SemanticWorkerMutation
| .document mutation =>
    decodeDocumentMutation protocol epoch revision mutation
| .workspaceFilesChanged files =>
    decodeWorkspaceFilesChangedMutation protocol
      epoch revision files

def canonicalMutationInput
    (epoch : Nat)
    (input : RootSemanticWorkerMutationInput) :
    Except SemanticWorkerProtocolError
      RootSemanticWorkerMutationInput := do
  let mutation ← wireMutation protocol epoch 1 input
  .ok mutation.input

/- What is put on the wire is the input under a revision. -/
theorem wireMutation_eq
    {epoch revision : Nat}
    {input : RootSemanticWorkerMutationInput}
    {mutation : SemanticWorkerMutation}
    (hWire :
      wireMutation protocol epoch revision input
        = .ok mutation) :
    mutation = ⟨epoch, revision, input⟩ := by
  cases input with
  | document document =>
    simp only [wireMutation, decodeDocumentMutation] at hWire
    split at hWire
    · cases hWire
    · simp only [bind, Except.bind] at hWire
      repeat' split at hWire
      all_goals first
        | cases hWire; rfl
        | cases hWire
  | workspaceFilesChanged files =>
    simp only [wireMutation,
      decodeWorkspaceFilesChangedMutation] at hWire
    split at hWire
    · cases hWire
    · simp only [bind, Except.bind] at hWire
      repeat' split at hWire
      all_goals first
        | cases hWire; rfl
        | cases hWire

/- The canonical input is the input. -/
theorem canonicalMutationInput_eq
    {epoch : Nat}
    {input canonical : RootSemanticWorkerMutationInput}
    (hCanonical :
      canonicalMutationInput protocol epoch input
        = .ok canonical) :
    canonical = input := by
  unfold canonicalMutationInput at hCanonical
  cases hWire : wireMutation protocol epoch 1 input with
  | error error =>
    rw [hWire] at hCanonical
    cases hCanonical
  | ok mutation =>
    rw [hWire] at hCanonical
    have hMutation := wireMutation_eq protocol hWire
    cases hCanonical
    rw [hMutation]

end Wire

----------
-- Requests on the Wire
----------

def isExpectedDocumentVersion
    (method : SemanticWorkerMethod)
    (version : Option Nat) :
    Bool :=
  match method, version with
  | .semanticReadiness, version => version.isNone
  | .outgoingCalls, none => true
  | .incomingCalls, none => true
  | _, none => false
  | _, some version => version ≤ maxSafeInteger

/- The methods that take an unopened document's text. -/
def admitsWorkerDiskSource
    (method : SemanticWorkerMethod)
    (version : Option Nat) :
    Bool :=
  match method with
  | .outgoingCalls | .incomingCalls => version.isNone
  | .define | .typeDefinitions | .hover | .signatureHelp
  | .complete | .resolveCompletion | .prepareCallHierarchy
  | .implementations | .references | .prepareRename
  | .rename => version = some 0
  | _ => false

/- The request codec accepts the input. -/
def canonicalRequestInput
    (protocol : WorkerProtocol)
    (input : RootSemanticWorkerRequestInput) :
    Bool :=
  protocol.isCanonicalSemanticWorkerFileUri input.uri
    && isExpectedDocumentVersion input.method
      input.expectedDocumentVersion
    && (input.diskSource.isNone
      || admitsWorkerDiskSource input.method
        input.expectedDocumentVersion)
    && protocol.decodesArguments input

----------
-- Responses
----------

/- The methods whose responses may have no version. -/
def allowsNullDocumentVersion : SemanticWorkerMethod → Bool
| .outgoingCalls => true
| .incomingCalls => true
| .semanticReadiness => true
| _ => false

/- The value of a successful response passes its decoder. -/
def decodesResult
    (protocol : WorkerProtocol)
    (method : SemanticWorkerMethod)
    (uri : Uri) :
    Except SemanticWorkerErrorCode JsonText → Bool
| .ok value => protocol.decodesValue method uri value
| .error _ => true

def decodeSemanticWorkerResponseForMethod
    (protocol : WorkerProtocol)
    (method : SemanticWorkerMethod)
    (message : WorkerMessage)
    (uri : Uri) :
    Option SemanticWorkerResponse :=
  match message with
  | .response response =>
      if (response.documentVersion.isSome
          || allowsNullDocumentVersion method)
          && decodesResult protocol method uri
            response.result then
        some response
      else
        none
  | _ => none

def requestResponseId : WorkerMessage → Option Nat
| .ack _ => none
| .response response => some response.id
| .malformed id => id

end Semantic

end ArktsServer
