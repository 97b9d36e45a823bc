import ArktsServer.Lib.Chunking
import ArktsServer.Semantic.MutationCoalescing
import Mathlib.Order.Lattice

/-
  The sizes of messages on the wire.  The accounting checks
  its limits in the middle of a string, of an object and of
  a list of changes; here every such check is one bound on
  one sum, so a codec accepts a mutation exactly when it is
  well formed and the whole message is within its limit.

  Key definitions include:
    * `stringBytes`, `objectBytes`, `changeBytes`
    * `messageFields`, `messageBytes`
    * `WellFormed`

  Correctness is proven by:
    * `stringByteMetrics_ok_iff`
    * `jsonObjectWireBytes_ok_iff`
    * `wireMutation_ok_iff`
-/

----------
-- Strings
----------

namespace ArktsServer

namespace Semantic

open Chunking

/- The bytes of the code units, without the two quotes. -/
def unitMetrics : CodeUnits → ByteMetrics
| [] => ⟨0, 0⟩
| [code] => codeUnitBytes code
| code :: next :: rest =>
    if isHighSurrogate code && isLowSurrogate next then
      surrogatePairBytes.add (unitMetrics rest)
    else
      (codeUnitBytes code).add (unitMetrics (next :: rest))

theorem ByteMetrics.add_assoc
    (first second third : ByteMetrics) :
    (first.add second).add third =
      first.add (second.add third) := by
  simp only [ByteMetrics.add, Nat.add_assoc]

@[simp] theorem ByteMetrics.add_raw
    (first second : ByteMetrics) :
    (first.add second).rawBytes =
      first.rawBytes + second.rawBytes :=
  rfl

@[simp] theorem ByteMetrics.add_wire
    (first second : ByteMetrics) :
    (first.add second).wireBytes =
      first.wireBytes + second.wireBytes :=
  rfl

theorem byteMetrics_eq (text : CodeUnits) :
    byteMetrics text = (unitMetrics text).add ⟨0, 2⟩ := by
  induction text using byteMetrics.induct with
  | case1 => rfl
  | case2 code => rfl
  | case3 code next rest hPair ih =>
    rw [byteMetrics, unitMetrics, if_pos hPair,
      if_pos hPair, ih, ByteMetrics.add_assoc]
  | case4 code next rest hPair ih =>
    rw [byteMetrics, unitMetrics, if_neg hPair,
      if_neg hPair, ih, ByteMetrics.add_assoc]

/- A code unit takes at most six bytes for one. -/
theorem codeUnitBytes_bounds (code : UInt16) :
    (codeUnitBytes code).rawBytes
        ≤ (codeUnitBytes code).wireBytes ∧
      (codeUnitBytes code).wireBytes
        ≤ 6 * (codeUnitBytes code).rawBytes := by
  unfold codeUnitBytes
  repeat' split
  all_goals decide

theorem unitMetrics_bounds (text : CodeUnits) :
    (unitMetrics text).rawBytes
        ≤ (unitMetrics text).wireBytes ∧
      (unitMetrics text).wireBytes
        ≤ 6 * (unitMetrics text).rawBytes := by
  induction text using unitMetrics.induct with
  | case1 => decide
  | case2 code => exact codeUnitBytes_bounds code
  | case3 code next rest hPair ih =>
    rw [unitMetrics, if_pos hPair]
    simp only [ByteMetrics.add_raw, ByteMetrics.add_wire,
      surrogatePairBytes]
    omega
  | case4 code next rest hPair ih =>
    have hCode := codeUnitBytes_bounds code
    rw [unitMetrics, if_neg hPair]
    simp only [ByteMetrics.add_raw, ByteMetrics.add_wire]
    omega

theorem byteMetrics_bounds (text : CodeUnits) :
    (byteMetrics text).rawBytes
        ≤ (byteMetrics text).wireBytes ∧
      (byteMetrics text).wireBytes
        ≤ 6 * (byteMetrics text).rawBytes + 2 := by
  have hUnits := unitMetrics_bounds text
  rw [byteMetrics_eq]
  simp only [ByteMetrics.add_raw, ByteMetrics.add_wire]
  omega

section Limits

variable {maxRawBytes maxWireBytes : Nat}
variable {onRawLimit onWireLimit : SemanticWorkerProtocolError}

/- Both limits hold. -/
def Within
    (maxRawBytes maxWireBytes : Nat)
    (metrics : ByteMetrics) : Prop :=
  metrics.rawBytes ≤ maxRawBytes ∧
    metrics.wireBytes ≤ maxWireBytes

theorem checkedMetrics_ok_iff
    {metrics counted : ByteMetrics} :
    checkedMetrics maxRawBytes maxWireBytes onRawLimit
        onWireLimit metrics = .ok counted ↔
      Within maxRawBytes maxWireBytes metrics ∧
        counted = metrics := by
  unfold checkedMetrics Within
  by_cases hRaw : maxRawBytes < metrics.rawBytes
  · rw [if_pos hRaw]
    constructor
    · intro hOk
      cases hOk
    · rintro ⟨⟨hBound, _⟩, _⟩
      exact absurd hRaw (Nat.not_lt.mpr hBound)
  · rw [if_neg hRaw]
    by_cases hWire : maxWireBytes < metrics.wireBytes
    · rw [if_pos hWire]
      constructor
      · intro hOk
        cases hOk
      · rintro ⟨⟨_, hBound⟩, _⟩
        exact absurd hWire (Nat.not_lt.mpr hBound)
    · rw [if_neg hWire]
      constructor
      · intro hOk
        injection hOk with hSame
        exact
          ⟨⟨Nat.not_lt.mp hRaw, Nat.not_lt.mp hWire⟩, hSame.symm⟩
      · rintro ⟨_, rfl⟩
        rfl

/-
  A check on the way is implied by the check at the end, as
  the bytes only grow.
-/
theorem stringByteMetricsFrom_ok_iff
    {text : CodeUnits}
    {start metrics : ByteMetrics}
    (hStart : Within maxRawBytes maxWireBytes start) :
    stringByteMetricsFrom maxRawBytes maxWireBytes onRawLimit
        onWireLimit text start = .ok metrics ↔
      metrics = start.add (unitMetrics text) ∧
        Within maxRawBytes maxWireBytes metrics := by
  induction text using unitMetrics.induct generalizing start with
  | case1 =>
    unfold stringByteMetricsFrom unitMetrics
    have hSame : start.add ⟨0, 0⟩ = start := rfl
    rw [hSame]
    constructor
    · intro hOk
      injection hOk with hOk
      subst hOk
      exact ⟨rfl, hStart⟩
    · rintro ⟨rfl, _⟩
      rfl
  | case2 code =>
    unfold stringByteMetricsFrom unitMetrics
    rw [checkedMetrics_ok_iff]
    constructor
    · rintro ⟨hWithin, rfl⟩
      exact ⟨rfl, hWithin⟩
    · rintro ⟨rfl, hWithin⟩
      exact ⟨hWithin, rfl⟩
  | case3 code next rest hPair ih =>
    rw [stringByteMetricsFrom, unitMetrics, if_pos hPair,
      if_pos hPair, bind_eq_ok]
    constructor
    · rintro ⟨counted, hCounted, hRest⟩
      rcases checkedMetrics_ok_iff.mp hCounted with
        ⟨hWithin, rfl⟩
      rw [ih hWithin, ByteMetrics.add_assoc] at hRest
      exact hRest
    · rintro ⟨rfl, hWithin⟩
      have hHead :
          Within maxRawBytes maxWireBytes
            (start.add surrogatePairBytes) := by
        unfold Within at hWithin ⊢
        simp only [ByteMetrics.add_raw,
          ByteMetrics.add_wire] at hWithin ⊢
        omega
      refine ⟨_, checkedMetrics_ok_iff.mpr ⟨hHead, rfl⟩, ?_⟩
      rw [ih hHead, ByteMetrics.add_assoc]
      exact ⟨rfl, hWithin⟩
  | case4 code next rest hPair ih =>
    rw [stringByteMetricsFrom, unitMetrics, if_neg hPair,
      if_neg hPair, bind_eq_ok]
    constructor
    · rintro ⟨counted, hCounted, hRest⟩
      rcases checkedMetrics_ok_iff.mp hCounted with
        ⟨hWithin, rfl⟩
      rw [ih hWithin, ByteMetrics.add_assoc] at hRest
      exact hRest
    · rintro ⟨rfl, hWithin⟩
      have hHead :
          Within maxRawBytes maxWireBytes
            (start.add (codeUnitBytes code)) := by
        unfold Within at hWithin ⊢
        simp only [ByteMetrics.add_raw,
          ByteMetrics.add_wire] at hWithin ⊢
        omega
      refine ⟨_, checkedMetrics_ok_iff.mpr ⟨hHead, rfl⟩, ?_⟩
      rw [ih hHead, ByteMetrics.add_assoc]
      exact ⟨rfl, hWithin⟩

/- A string is counted unless it is over a limit. -/
theorem stringByteMetrics_ok_iff
    {text : CodeUnits}
    {metrics : ByteMetrics} :
    stringByteMetrics text maxRawBytes maxWireBytes onRawLimit
        onWireLimit = .ok metrics ↔
      metrics = byteMetrics text ∧
        Within maxRawBytes maxWireBytes metrics := by
  unfold stringByteMetrics
  have hSum :
      (⟨0, 2⟩ : ByteMetrics).add (unitMetrics text) =
        byteMetrics text := by
    rw [byteMetrics_eq]
    simp only [ByteMetrics.add, Nat.add_comm]
  by_cases hSmall : maxWireBytes < 2
  · rw [if_pos hSmall]
    constructor
    · intro hOk
      cases hOk
    · rintro ⟨rfl, _, hWire⟩
      rw [byteMetrics_eq, ByteMetrics.add_wire] at hWire
      exact
        absurd hSmall
          (Nat.not_lt.mpr ((Nat.le_add_left 2 _).trans hWire))
  · rw [if_neg hSmall, stringByteMetricsFrom_ok_iff, hSum]
    exact ⟨Nat.zero_le _, Nat.not_lt.mp hSmall⟩

end Limits

----------
-- Objects
----------

/- The bytes of a text as a JSON string. -/
def stringBytes (text : String) : Nat :=
  (byteMetrics (codeUnits text)).wireBytes

theorem jsonStringWireBytes_ok_iff
    {text : String}
    {maxBytes bytes : Nat}
    (hSafe : maxBytes ≤ maxSafeInteger) :
    jsonStringWireBytes text maxBytes = .ok bytes ↔
      bytes = stringBytes text ∧ bytes ≤ maxBytes := by
  have hBounds := byteMetrics_bounds (codeUnits text)
  unfold jsonStringWireBytes stringBytes
  rw [bind_eq_ok]
  constructor
  · rintro ⟨metrics, hMetrics, hBytes⟩
    rcases stringByteMetrics_ok_iff.mp hMetrics with
      ⟨rfl, _, hWire⟩
    injection hBytes with hBytes
    subst hBytes
    exact ⟨rfl, hWire⟩
  · rintro ⟨rfl, hWire⟩
    refine ⟨_, stringByteMetrics_ok_iff.mpr ⟨rfl, ?_, hWire⟩, rfl⟩
    exact hBounds.1.trans (hWire.trans hSafe)

variable {α : Type}

/- The bytes of the items of a list. -/
def totalBytes
    (size : α → Nat) : List α → Nat
| [] => 0
| item :: items => size item + totalBytes size items

theorem le_totalBytes
    {size : α → Nat}
    {item : α}
    {items : List α}
    (hItem : item ∈ items) :
    size item ≤ totalBytes size items := by
  induction items with
  | nil => cases hItem
  | cons head items ih =>
    rw [totalBytes]
    rcases List.mem_cons.mp hItem with rfl | hTail
    · exact Nat.le_add_right _ _
    · exact (ih hTail).trans (Nat.le_add_left _ _)

/- The bytes of a field: its name, a colon and its value. -/
def fieldBytes (field : String × Nat) : Nat :=
  stringBytes field.1 + 1 + field.2

/- The bytes of an object with its braces and its commas. -/
def objectBytes (fields : List (String × Nat)) : Nat :=
  2 + (fields.length - 1) + totalBytes fieldBytes fields

variable {fields : List (String × Nat)}

theorem jsonObjectWireBytesFrom_ok_iff
    {maxBytes bytes result : Nat}
    (hSafe : maxBytes ≤ maxSafeInteger)
    (hBytes : bytes ≤ maxBytes) :
    jsonObjectWireBytesFrom maxBytes fields bytes = .ok result
      ↔ result = bytes + totalBytes fieldBytes fields ∧
        result ≤ maxBytes := by
  induction fields generalizing bytes with
  | nil =>
    unfold jsonObjectWireBytesFrom
    constructor
    · intro hOk
      injection hOk with hOk
      subst hOk
      exact ⟨rfl, hBytes⟩
    · rintro ⟨rfl, _⟩
      rfl
  | cons field fields ih =>
    rcases field with ⟨name, valueBytes⟩
    rw [jsonObjectWireBytesFrom, totalBytes]
    have hField :
        fieldBytes (name, valueBytes) =
          stringBytes name + 1 + valueBytes :=
      rfl
    by_cases hOver : maxBytes < bytes + 1 + valueBytes
    · rw [if_pos hOver]
      constructor
      · intro hOk
        cases hOk
      · rintro ⟨rfl, hFits⟩
        omega
    · rw [if_neg hOver, bind_eq_ok]
      have hRest :
          maxBytes - bytes - 1 - valueBytes ≤ maxSafeInteger :=
        le_trans (by omega) hSafe
      constructor
      · rintro ⟨nameBytes, hName, hLoop⟩
        rcases (jsonStringWireBytes_ok_iff hRest).mp hName
          with ⟨rfl, hFits⟩
        rw [ih (by omega)] at hLoop
        omega
      · rintro ⟨rfl, hFits⟩
        refine
          ⟨stringBytes name,
            (jsonStringWireBytes_ok_iff hRest).mpr
              ⟨rfl, by omega⟩, ?_⟩
        rw [ih (by omega)]
        omega

/- An object is counted unless it is over its limit. -/
theorem jsonObjectWireBytes_ok_iff
    {maxBytes result : Nat}
    (hSafe : maxBytes ≤ maxSafeInteger) :
    jsonObjectWireBytes fields maxBytes = .ok result ↔
      result = objectBytes fields ∧ result ≤ maxBytes := by
  unfold jsonObjectWireBytes objectBytes
  by_cases hOver : maxBytes < 2 + (fields.length - 1)
  · rw [if_pos hOver]
    constructor
    · intro hOk
      cases hOk
    · rintro ⟨rfl, hFits⟩
      omega
  · rw [if_neg hOver]
    exact
      jsonObjectWireBytesFrom_ok_iff hSafe (Nat.not_lt.mp hOver)

theorem maxMessage_safe :
    maxSemanticWorkerMessageBytes ≤ maxSafeInteger := by
  decide

theorem messageStringWireBytes_ok_iff
    {text : String}
    {bytes : Nat} :
    messageStringWireBytes text = .ok bytes ↔
      bytes = stringBytes text ∧
        bytes ≤ maxSemanticWorkerMessageBytes :=
  jsonStringWireBytes_ok_iff maxMessage_safe

theorem assertMessageEnvelope_ok_iff
    {fields : List (String × Nat)} :
    assertMessageEnvelope fields = .ok () ↔
      objectBytes fields ≤ maxSemanticWorkerMessageBytes := by
  unfold assertMessageEnvelope
  rw [bind_eq_ok]
  constructor
  · rintro ⟨bytes, hBytes, _⟩
    rcases (jsonObjectWireBytes_ok_iff maxMessage_safe).mp
        hBytes with ⟨rfl, hFits⟩
    exact hFits
  · intro hFits
    exact
      ⟨_,
        (jsonObjectWireBytes_ok_iff maxMessage_safe).mpr
          ⟨rfl, hFits⟩, rfl⟩

/- A value of a field is no longer than its object. -/
theorem le_objectBytes
    {field : String × Nat}
    (hField : field ∈ fields) :
    field.2 ≤ objectBytes fields := by
  have hValue : field.2 ≤ fieldBytes field := Nat.le_add_left _ _
  exact
    hValue.trans
      ((le_totalBytes hField).trans (Nat.le_add_left _ _))

----------
-- Changes
----------

section Wire

variable {protocol : WorkerProtocol}

def changeFields
    (change : SemanticWorkerWorkspaceFileChange) :
    List (String × Nat) :=
  [("uri", stringBytes change.uri),
    ("kind", stringBytes change.kind.name)]

def changeBytes
    (change : SemanticWorkerWorkspaceFileChange) :
    Nat :=
  objectBytes (changeFields change)

/- The bytes of the changes as a JSON array. -/
def changesBytes
    (changes : List SemanticWorkerWorkspaceFileChange) :
    Nat :=
  2 + (changes.length - 1) + totalBytes changeBytes changes

/- A change that the root's codec reads. -/
def ReadsChange
    (protocol : WorkerProtocol)
    (rootUri : Uri)
    (change : SemanticWorkerWorkspaceFileChange) : Prop :=
  protocol.isCanonicalSemanticWorkerFileUri change.uri = true ∧
    protocol.isUriWithinRoot change.uri rootUri = true

theorem workspaceFileChangesWireBytes_ok_iff
    {rootUri : Uri}
    {changes : List SemanticWorkerWorkspaceFileChange}
    {start result : Nat}
    (hStart : start ≤ maxSemanticWorkerMessageBytes) :
    workspaceFileChangesWireBytes protocol rootUri changes
        start = .ok result ↔
      (∀ change ∈ changes, ReadsChange protocol rootUri change)
        ∧ result = start + totalBytes changeBytes changes
        ∧ result ≤ maxSemanticWorkerMessageBytes := by
  induction changes generalizing start with
  | nil =>
    unfold workspaceFileChangesWireBytes
    constructor
    · intro hOk
      injection hOk with hOk
      subst hOk
      exact ⟨fun _ hNil => (by cases hNil), rfl, hStart⟩
    · rintro ⟨_, rfl, _⟩
      rfl
  | cons change changes ih =>
    rw [workspaceFileChangesWireBytes, totalBytes,
      List.forall_mem_cons]
    by_cases hRead : ReadsChange protocol rootUri change
    · rw [if_neg (by simp [hRead.1, hRead.2])]
      have hRest :
          maxSemanticWorkerMessageBytes - start
            ≤ maxSafeInteger :=
        (Nat.sub_le _ _).trans maxMessage_safe
      simp only [bind_eq_ok]
      constructor
      · rintro ⟨uriBytes, hUri, kindBytes, hKind, bytes,
          hBytes, hLoop⟩
        rcases messageStringWireBytes_ok_iff.mp hUri with
          ⟨rfl, _⟩
        rcases messageStringWireBytes_ok_iff.mp hKind with
          ⟨rfl, _⟩
        rcases (jsonObjectWireBytes_ok_iff hRest).mp hBytes
          with ⟨rfl, hFits⟩
        change
          changeBytes change
            ≤ maxSemanticWorkerMessageBytes - start at hFits
        change
          (if maxSemanticWorkerMessageBytes
              < start + changeBytes change then _ else
            workspaceFileChangesWireBytes protocol rootUri
              changes (start + changeBytes change)) =
            _ at hLoop
        rw [if_neg (by omega), ih (by omega)] at hLoop
        rcases hLoop with ⟨hAll, hSum, hFits⟩
        exact ⟨⟨hRead, hAll⟩, by omega, hFits⟩
      · rintro ⟨⟨_, hAll⟩, rfl, hFits⟩
        have hUri :
            stringBytes change.uri ≤ changeBytes change :=
          @le_objectBytes (changeFields change)
            ("uri", stringBytes change.uri)
            (List.mem_cons_self ..)
        have hKind :
            stringBytes change.kind.name ≤ changeBytes change :=
          @le_objectBytes (changeFields change)
            ("kind", stringBytes change.kind.name)
            (List.mem_cons_of_mem _ (List.mem_cons_self ..))
        refine
          ⟨_, messageStringWireBytes_ok_iff.mpr
              ⟨rfl, by omega⟩,
            _, messageStringWireBytes_ok_iff.mpr
              ⟨rfl, by omega⟩,
            changeBytes change,
            (jsonObjectWireBytes_ok_iff hRest).mpr
              ⟨rfl, by omega⟩, ?_⟩
        rw [if_neg (by omega), ih (by omega)]
        exact ⟨hAll, by omega, by omega⟩
    · have hRefused :
          (!protocol.isCanonicalSemanticWorkerFileUri
              change.uri) = true ∨
            (!protocol.isUriWithinRoot change.uri
              rootUri) = true := by
        unfold ReadsChange at hRead
        simpa only [Bool.not_eq_true', not_and_or,
          Bool.not_eq_true] using hRead
      rw [if_pos hRefused]
      constructor
      · intro hOk
        cases hOk
      · rintro ⟨⟨hChange, _⟩, _⟩
        exact absurd hChange hRead

theorem decodeWorkspaceFileChanges_ok_iff
    {files : WorkspaceFilesChanged}
    {result : Nat} :
    decodeWorkspaceFileChanges protocol files = .ok result ↔
      files.changes.length ≤ maxSemanticWorkerFileChanges
        ∧ (∀ change ∈ files.changes,
          ReadsChange protocol files.rootUri change)
        ∧ result = changesBytes files.changes
        ∧ result ≤ maxSemanticWorkerMessageBytes := by
  unfold decodeWorkspaceFileChanges
  by_cases hMany :
      maxSemanticWorkerFileChanges < files.changes.length
  · rw [if_pos hMany]
    constructor
    · intro hOk
      cases hOk
    · rintro ⟨hFew, _⟩
      exact absurd hMany (Nat.not_lt.mpr hFew)
  · have hFew := Nat.not_lt.mp hMany
    have hStart :
        2 + (files.changes.length - 1)
          ≤ maxSemanticWorkerMessageBytes := by
      have hLimits :
          1 + maxSemanticWorkerFileChanges
            < maxSemanticWorkerMessageBytes := by
        decide
      omega
    rw [if_neg hMany, workspaceFileChangesWireBytes_ok_iff hStart]
    exact ⟨fun hAll => ⟨hFew, hAll⟩, fun hAll => hAll.2⟩

----------
-- Messages
----------

def documentTextFields
    (mutation : DocumentMutation) :
    List (String × Nat) :=
  if mutation.kind = .closed then
    []
  else
    [("text", (byteMetrics mutation.text).wireBytes)]

/- The fields of a document mutation with their bytes. -/
def documentFields
    (epoch revision : Nat)
    (mutation : DocumentMutation) :
    List (String × Nat) :=
  [("protocol", numberWireBytes 2),
    ("epoch", numberWireBytes epoch),
    ("revision", numberWireBytes revision),
    ("kind", stringBytes mutation.kind.name),
    ("uri", stringBytes mutation.uri),
    ("documentVersion",
      numberWireBytes mutation.documentVersion)]
    ++ documentTextFields mutation

/- The fields of a workspace mutation with their bytes. -/
def filesFields
    (epoch revision : Nat)
    (files : WorkspaceFilesChanged) :
    List (String × Nat) :=
  [("protocol", numberWireBytes 2),
    ("epoch", numberWireBytes epoch),
    ("revision", numberWireBytes revision),
    ("kind", stringBytes "workspaceFilesChanged"),
    ("rootUri", stringBytes files.rootUri),
    ("rootDirty", booleanWireBytes files.rootDirty)]
    ++ configurationField files
    ++ [("resourceDirty",
        booleanWireBytes files.resourceDirty),
      ("resourceChanged",
        booleanWireBytes files.resourceChanged),
      ("changes", changesBytes files.changes)]

def messageFields
    (epoch revision : Nat) :
    RootSemanticWorkerMutationInput → List (String × Nat)
| .document mutation => documentFields epoch revision mutation
| .workspaceFilesChanged files =>
    filesFields epoch revision files

/- The bytes of a mutation as a JSON text. -/
def messageBytes
    (epoch revision : Nat)
    (input : RootSemanticWorkerMutationInput) :
    Nat :=
  objectBytes (messageFields epoch revision input)

/- What the codec asks of a mutation, apart from its size. -/
def WellFormed
    (protocol : WorkerProtocol) :
    RootSemanticWorkerMutationInput → Prop
| .document mutation =>
    protocol.isCanonicalSemanticWorkerFileUri mutation.uri
        = true ∧
      mutation.documentVersion ≤ maxSafeInteger
| .workspaceFilesChanged files =>
    protocol.isCanonicalSemanticWorkerFileUri files.rootUri
        = true ∧
      (files.configurationChanged = some true →
        files.rootDirty = true) ∧
      (files.resourceDirty = true →
        files.resourceChanged = true) ∧
      (files.rootDirty = true ∨ files.resourceChanged = true
        ∨ files.changes ≠ []) ∧
      ∀ change ∈ files.changes,
        ReadsChange protocol files.rootUri change

/- The limits that stand beside the size of the message. -/
def WithinCounts : RootSemanticWorkerMutationInput → Prop
| .document mutation =>
    mutationTextBytes (.document mutation)
      ≤ maxSemanticWorkerTextBytes
| .workspaceFilesChanged files =>
    files.changes.length ≤ maxSemanticWorkerFileChanges

variable {mutation : DocumentMutation}

theorem documentTextField_ok_iff
    {field : List (String × Nat)} :
    documentTextField mutation = .ok field ↔
      field = documentTextFields mutation ∧
        WithinCounts (.document mutation) ∧
        (mutation.kind ≠ .closed →
          (byteMetrics mutation.text).wireBytes
            ≤ maxSemanticWorkerMessageBytes) := by
  unfold documentTextField documentTextFields WithinCounts
    mutationTextBytes
  by_cases hClosed : mutation.kind = .closed
  · simp only [if_pos hClosed]
    constructor
    · intro hOk
      injection hOk with hOk
      subst hOk
      exact
        ⟨rfl, Nat.zero_le _, fun hOpen => absurd hClosed hOpen⟩
    · rintro ⟨rfl, _⟩
      rfl
  · simp only [if_neg hClosed]
    rw [bind_eq_ok]
    constructor
    · rintro ⟨metrics, hMetrics, hField⟩
      rcases stringByteMetrics_ok_iff.mp hMetrics with
        ⟨rfl, hRaw, hWire⟩
      injection hField with hField
      subst hField
      exact ⟨rfl, hRaw, fun _ => hWire⟩
    · rintro ⟨rfl, hRaw, hWire⟩
      exact
        ⟨_,
          stringByteMetrics_ok_iff.mpr
            ⟨rfl, hRaw, hWire hClosed⟩, rfl⟩

variable {epoch revision : Nat}

theorem decodeDocumentMutation_ok_iff
    (hEpoch : 0 < epoch)
    (hRevision : 0 < revision) :
    decodeDocumentMutation protocol epoch revision mutation
        = .ok ⟨epoch, revision, .document mutation⟩ ↔
      WellFormed protocol (.document mutation) ∧
        WithinCounts (.document mutation) ∧
        messageBytes epoch revision (.document mutation)
          ≤ maxSemanticWorkerMessageBytes := by
  unfold decodeDocumentMutation
  by_cases hWell : WellFormed protocol (.document mutation)
  · rw [if_neg (by
      rintro (hNone | hNone | hNone | hNone)
      · exact absurd hNone (Nat.ne_of_gt hEpoch)
      · exact absurd hNone (Nat.ne_of_gt hRevision)
      · rw [hWell.1] at hNone
        cases hNone
      · exact absurd hNone (Nat.not_lt.mpr hWell.2))]
    simp only [bind_eq_ok]
    constructor
    · rintro ⟨textField, hText, kindBytes, hKind, uriBytes,
        hUri, _, hEnvelope, _⟩
      rcases documentTextField_ok_iff.mp hText with
        ⟨rfl, hCounts, _⟩
      rcases messageStringWireBytes_ok_iff.mp hKind with
        ⟨rfl, _⟩
      rcases messageStringWireBytes_ok_iff.mp hUri with
        ⟨rfl, _⟩
      exact
        ⟨hWell, hCounts,
          assertMessageEnvelope_ok_iff.mp hEnvelope⟩
    · rintro ⟨_, hCounts, hFits⟩
      have hField :
          ∀ field ∈ documentFields epoch revision mutation,
            field.2 ≤ maxSemanticWorkerMessageBytes :=
        fun _ hMem => (le_objectBytes hMem).trans hFits
      refine
        ⟨_, documentTextField_ok_iff.mpr
            ⟨rfl, hCounts, fun hOpen => ?_⟩,
          _, messageStringWireBytes_ok_iff.mpr
            ⟨rfl,
              hField ("kind", stringBytes mutation.kind.name)
                (by simp [documentFields])⟩,
          _, messageStringWireBytes_ok_iff.mpr
            ⟨rfl,
              hField ("uri", stringBytes mutation.uri)
                (by simp [documentFields])⟩,
          (), assertMessageEnvelope_ok_iff.mpr hFits, trivial⟩
      exact
        hField ("text", (byteMetrics mutation.text).wireBytes)
          (by simp [documentFields, documentTextFields, hOpen])
  · constructor
    · intro hOk
      split at hOk
      · cases hOk
      · rename_i hChecks
        simp only [not_or, Bool.not_eq_true,
          Bool.not_eq_false', Nat.not_lt] at hChecks
        exact absurd ⟨hChecks.2.2.1, hChecks.2.2.2⟩ hWell
    · rintro ⟨hForm, _⟩
      exact absurd hForm hWell

theorem decodeWorkspaceFilesChangedMutation_ok_iff
    {files : WorkspaceFilesChanged}
    (hEpoch : 0 < epoch)
    (hRevision : 0 < revision) :
    decodeWorkspaceFilesChangedMutation protocol epoch revision
        files
        = .ok ⟨epoch, revision, .workspaceFilesChanged files⟩ ↔
      WellFormed protocol (.workspaceFilesChanged files) ∧
        WithinCounts (.workspaceFilesChanged files) ∧
        messageBytes epoch revision (.workspaceFilesChanged files)
          ≤ maxSemanticWorkerMessageBytes := by
  have hChecks :
      (epoch = 0 ∨ revision = 0
        ∨ (!protocol.isCanonicalSemanticWorkerFileUri
            files.rootUri) = true
        ∨ (files.configurationChanged = some true
          ∧ (!files.rootDirty) = true)
        ∨ (files.resourceDirty = true
          ∧ (!files.resourceChanged) = true)) ↔
        ¬ (protocol.isCanonicalSemanticWorkerFileUri
              files.rootUri = true ∧
            (files.configurationChanged = some true →
              files.rootDirty = true) ∧
            (files.resourceDirty = true →
              files.resourceChanged = true)) := by
    simp only [Nat.ne_of_gt hEpoch, Nat.ne_of_gt hRevision,
      false_or, not_and_or, Bool.not_eq_true',
      Bool.not_eq_true, Classical.not_imp]
  unfold decodeWorkspaceFilesChangedMutation
  by_cases hHead :
      protocol.isCanonicalSemanticWorkerFileUri
          files.rootUri = true ∧
        (files.configurationChanged = some true →
          files.rootDirty = true) ∧
        (files.resourceDirty = true →
          files.resourceChanged = true)
  · rw [if_neg (fun hNone => hChecks.mp hNone hHead)]
    simp only [bind_eq_ok]
    constructor
    · rintro ⟨bytes, hBytes, hRest⟩
      rcases decodeWorkspaceFileChanges_ok_iff.mp hBytes with
        ⟨hCount, hReads, rfl, _⟩
      split at hRest
      · cases hRest
      · rename_i hEffect
        simp only [bind_eq_ok] at hRest
        rcases hRest with
          ⟨kindBytes, hKind, rootBytes, hRoot, _, hEnvelope, _⟩
        rcases messageStringWireBytes_ok_iff.mp hKind with
          ⟨rfl, _⟩
        rcases messageStringWireBytes_ok_iff.mp hRoot with
          ⟨rfl, _⟩
        refine
          ⟨⟨hHead.1, hHead.2.1, hHead.2.2, ?_, hReads⟩, hCount,
            assertMessageEnvelope_ok_iff.mp hEnvelope⟩
        simp only [Bool.and_eq_true, Bool.not_eq_true',
          List.isEmpty_iff, not_and_or, Bool.not_eq_false]
          at hEffect
        rcases hEffect with (hDirty | hResource) | hChanges
        · exact Or.inl hDirty
        · exact Or.inr (Or.inl hResource)
        · exact Or.inr (Or.inr hChanges)
    · rintro ⟨hWell, hCounts, hFits⟩
      have hField :
          ∀ field ∈ filesFields epoch revision files,
            field.2 ≤ maxSemanticWorkerMessageBytes :=
        fun _ hMem => (le_objectBytes hMem).trans hFits
      refine
        ⟨_, decodeWorkspaceFileChanges_ok_iff.mpr
          ⟨hCounts, hWell.2.2.2.2, rfl,
            hField ("changes", changesBytes files.changes)
              (by simp [filesFields])⟩, ?_⟩
      rw [if_neg (by
        intro hNone
        simp only [Bool.and_eq_true, Bool.not_eq_true',
          List.isEmpty_iff] at hNone
        rcases hWell.2.2.2.1 with hDirty | hResource | hChanges
        · rw [hDirty] at hNone
          cases hNone.1.1
        · rw [hResource] at hNone
          cases hNone.1.2
        · exact hChanges hNone.2)]
      simp only [bind_eq_ok]
      exact
        ⟨_, messageStringWireBytes_ok_iff.mpr
            ⟨rfl,
              hField ("kind", stringBytes "workspaceFilesChanged")
                (by simp [filesFields])⟩,
          _, messageStringWireBytes_ok_iff.mpr
            ⟨rfl,
              hField ("rootUri", stringBytes files.rootUri)
                (by simp [filesFields])⟩,
          (), assertMessageEnvelope_ok_iff.mpr hFits, trivial⟩
  · rw [if_pos (hChecks.mpr hHead)]
    constructor
    · intro hOk
      cases hOk
    · rintro ⟨hWell, _⟩
      exact absurd ⟨hWell.1, hWell.2.1, hWell.2.2.1⟩ hHead

variable {input : RootSemanticWorkerMutationInput}

/-
  The codec takes a mutation exactly when it is well formed
  and within the limits, the message as a whole included.
-/
theorem wireMutation_ok_iff
    (hEpoch : 0 < epoch)
    (hRevision : 0 < revision) :
    wireMutation protocol epoch revision input
        = .ok ⟨epoch, revision, input⟩ ↔
      WellFormed protocol input ∧ WithinCounts input ∧
        messageBytes epoch revision input
          ≤ maxSemanticWorkerMessageBytes := by
  cases input with
  | document mutation =>
    exact decodeDocumentMutation_ok_iff hEpoch hRevision
  | workspaceFilesChanged files =>
    exact
      decodeWorkspaceFilesChangedMutation_ok_iff hEpoch hRevision

theorem canonicalMutationInput_ok_iff
    {epoch : Nat}
    (hEpoch : 0 < epoch) :
    canonicalMutationInput protocol epoch input = .ok input ↔
      WellFormed protocol input ∧ WithinCounts input ∧
        messageBytes epoch 1 input
          ≤ maxSemanticWorkerMessageBytes := by
  rw [← wireMutation_ok_iff hEpoch Nat.one_pos]
  unfold canonicalMutationInput
  rw [bind_eq_ok]
  constructor
  · rintro ⟨mutation, hWire, _⟩
    rw [hWire, wireMutation_eq protocol hWire]
  · intro hWire
    exact ⟨_, hWire, rfl⟩

end Wire

end Semantic

end ArktsServer
