import ArktsServer.Semantic.WorkerProtocol
import Mathlib.Data.List.Perm.Basic

/-
  The queue of pending semantic reads: its admission bounds
  and the choice of the request that is sent next.

  Key definitions include:
    * `Semantic.RequestRecord`
    * `Semantic.takeNextSemanticWorkerRequest`
    * `Semantic.PendingReads`

  Correctness is proven by:
    * `Semantic.takeNext_perm`
    * `Semantic.PendingReads.take_perm`
-/

namespace ArktsServer

namespace Semantic

----------
-- Records
----------

/-
  A request of the supervisor.  `promise` names its
  completion and its cancellation cell, and is the identity
  of the record.
-/
structure RequestRecord where
  promise : Nat
  input : RootSemanticWorkerRequestInput
  stateGeneration : Nat
  wire : Option SemanticWorkerRequest := none
deriving DecidableEq

----------
-- Lanes
----------

inductive RequestClass where
| completion
| foreground
| interactive
| diagnostic
| global
deriving DecidableEq

def requestClass : SemanticWorkerMethod → RequestClass
| .complete => .completion
| .resolveCompletion => .completion
| .define => .foreground
| .typeDefinitions => .foreground
| .documentHighlights => .interactive
| .inlayHints => .interactive
| .foldingRanges => .interactive
| .formatDocument => .foreground
| .documentSymbols => .interactive
| .codeActions => .interactive
| .resolveCodeAction => .foreground
| .hover => .foreground
| .signatureHelp => .foreground
| .prepareCallHierarchy => .foreground
| .outgoingCalls => .foreground
| .diagnose => .diagnostic
| .implementations => .global
| .references => .global
| .prepareRename => .global
| .rename => .global
| .incomingCalls => .global
| .semanticReadiness => .global

def priority : RequestClass → Int
| .completion => 3
| .foreground => 2
| .interactive => 1
| .diagnostic => 0
| .global => -1

def RequestRecord.priority
    (record : RequestRecord) :
    Int :=
  Semantic.priority (requestClass record.input.method)

def isInteractiveSemanticWorkerMethod
    (method : SemanticWorkerMethod) :
    Bool :=
  0 < Semantic.priority (requestClass method)

/-
  The index of the first request of the highest class behind
  the head, up to the first queued global.
-/
def selectRequest : List RequestRecord → Nat → Int → Nat → Nat
| [], _, _, selected => selected
| record :: records, index, highest, selected =>
    if record.priority < 0 then
      selected
    else if highest < record.priority then
      selectRequest records (index + 1) record.priority index
    else
      selectRequest records (index + 1) highest selected

/- A selection, with what it leaves in the queue. -/
structure RequestSelection where
  request : Option RequestRecord
  bypassedDiagnostic : Option RequestRecord
  rest : List RequestRecord
deriving DecidableEq

/- `pending.splice(index, 1)`. -/
def spliceRequest
    (pending : List RequestRecord)
    (index : Nat)
    (bypassedDiagnostic : Option RequestRecord) :
    RequestSelection :=
  { request := pending[index]?
    bypassedDiagnostic := bypassedDiagnostic
    rest := pending.eraseIdx index }

def isBypassed
    (oldest : RequestRecord)
    (bypassed : Option RequestRecord) :
    Bool :=
  bypassed.map RequestRecord.promise = some oldest.promise

/- The head, or the request that bypasses it. -/
def takeSelected
    (oldest : RequestRecord)
    (later : List RequestRecord)
    (selected : Nat) :
    RequestSelection :=
  if 0 < selected then
    spliceRequest (oldest :: later) selected (some oldest)
  else
    ⟨some oldest, none, later⟩

def takeNextSemanticWorkerRequest
    (pending : List RequestRecord)
    (detachedReference : Bool)
    (bypassedDiagnostic : Option RequestRecord) :
    RequestSelection :=
  match pending with
  | [] => ⟨none, none, []⟩
  | oldest :: later =>
      if detachedReference then
        let index :=
          (oldest :: later).findIdx fun record =>
            isInteractiveSemanticWorkerMethod
              record.input.method
        spliceRequest (oldest :: later) index
          (if isBypassed oldest bypassedDiagnostic then
            bypassedDiagnostic
          else
            none)
      else
        let selected :=
          if 0 ≤ oldest.priority
              ∧ !isBypassed oldest bypassedDiagnostic then
            selectRequest later 1 oldest.priority 0
          else
            0
        takeSelected oldest later selected

variable {bypassed : Option RequestRecord}
variable {record : RequestRecord}

theorem spliceRequest_perm
    {pending : List RequestRecord}
    {index : Nat}
    (hRequest :
      (spliceRequest pending index bypassed).request
        = some record) :
    (record :: (spliceRequest pending index bypassed).rest).Perm
      pending := by
  simp only [spliceRequest] at hRequest ⊢
  obtain ⟨hLt, hGet⟩ := List.getElem?_eq_some_iff.mp hRequest
  rw [← hGet]
  exact List.getElem_cons_eraseIdx_perm hLt

theorem takeSelected_perm
    {oldest record : RequestRecord}
    {later : List RequestRecord}
    {selected : Nat}
    (hRequest :
      (takeSelected oldest later selected).request
        = some record) :
    (record
        :: (takeSelected oldest later selected).rest).Perm
      (oldest :: later) := by
  unfold takeSelected at hRequest ⊢
  split
  · rename_i hSelected
    rw [if_pos hSelected] at hRequest
    exact spliceRequest_perm hRequest
  · rename_i hSelected
    rw [if_neg hSelected] at hRequest
    cases hRequest
    exact List.Perm.refl _

variable {detached : Bool}

/- A request is taken out of the queue, once. -/
theorem takeNext_perm
    {pending : List RequestRecord}
    (hRequest :
      (takeNextSemanticWorkerRequest pending detached
        bypassed).request = some record) :
    (record
        :: (takeNextSemanticWorkerRequest pending detached
          bypassed).rest).Perm
      pending := by
  cases pending with
  | nil => cases hRequest
  | cons oldest later =>
    cases detached with
    | true => exact spliceRequest_perm hRequest
    | false => exact takeSelected_perm hRequest

----------
-- Pending Reads
----------

/-
  The records in arrival order, the number of records of
  each source, the admission weight of each record under its
  promise, and the sum of the weights.
-/
structure PendingReads where
  records : List RequestRecord := []
  sources : List (Uri × Nat) := []
  weights : List (Nat × Nat) := []
  bytes : Nat := 0
deriving DecidableEq

namespace PendingReads

def maxSources : Nat := 64

def maxInputBytes : Nat := maxSemanticWorkerTextBytes

def setSource
    (source : Uri)
    (count : Nat)
    (sources : List (Uri × Nat)) :
    List (Uri × Nat) :=
  (source, count)
    :: sources.filter (fun entry => entry.1 ≠ source)

def deleteSource
    (source : Uri)
    (sources : List (Uri × Nat)) :
    List (Uri × Nat) :=
  sources.filter (fun entry => entry.1 ≠ source)

def add
    (protocol : WorkerProtocol)
    (reads : PendingReads)
    (record : RequestRecord) :
    Option PendingReads :=
  let source := record.input.uri
  let count := (reads.sources.lookup source).getD 0
  let bytes := protocol.inputBytes record.input
  if (count = 0 ∧ maxSources ≤ reads.sources.length)
      ∨ maxInputBytes < reads.bytes + bytes then
    none
  else
    some
      { records := reads.records ++ [record]
        sources := setSource source (count + 1) reads.sources
        weights := (record.promise, bytes) :: reads.weights
        bytes := reads.bytes + bytes }

variable (reads : PendingReads)

/-
  The accounts without a record.  A queued record has its
  weight; the source throws for one that has none.
-/
def release
    (record : RequestRecord) :
    PendingReads :=
  match reads.weights.lookup record.promise with
  | none => reads
  | some bytes =>
      let count :=
        (reads.sources.lookup record.input.uri).getD 0 - 1
      { reads with
        weights :=
          reads.weights.filter
            (fun entry => entry.1 ≠ record.promise)
        bytes := reads.bytes - bytes
        sources :=
          if count = 0 then
            deleteSource record.input.uri reads.sources
          else
            setSource record.input.uri count reads.sources }

def take
    (detachedReference : Bool)
    (bypassed : Option RequestRecord) :
    Option RequestRecord × Option RequestRecord
      × PendingReads :=
  let selected :=
    takeNextSemanticWorkerRequest reads.records
      detachedReference bypassed
  match selected.request with
  | none => (none, selected.bypassedDiagnostic, reads)
  | some record =>
      (some record, selected.bypassedDiagnostic,
        { reads with records := selected.rest }.release record)

def remove
    (record : RequestRecord) :
    Option PendingReads :=
  if record ∈ reads.records then
    some
      ({ reads with
        records := reads.records.erase record }.release record)
  else
    none

@[simp]
theorem release_records
    (record : RequestRecord) :
    (reads.release record).records = reads.records := by
  unfold release
  split <;> rfl

theorem add_records
    {protocol : WorkerProtocol}
    {reads added : PendingReads}
    (hAdd : add protocol reads record = some added) :
    added.records = reads.records ++ [record] := by
  simp only [add] at hAdd
  split at hAdd
  · cases hAdd
  · cases hAdd
    rfl

theorem take_none
    {reads : PendingReads}
    (hTake : (reads.take detached bypassed).1 = none) :
    (reads.take detached bypassed).2.2 = reads := by
  simp only [take] at hTake ⊢
  split
  · rfl
  · rename_i record hRequest
    rw [hRequest] at hTake
    cases hTake

/- Taking a request moves it out of the records. -/
theorem take_perm
    {reads : PendingReads}
    (hTake :
      (reads.take detached bypassed).1 = some record) :
    (record
        :: (reads.take detached bypassed).2.2.records).Perm
      reads.records := by
  simp only [take] at hTake ⊢
  split
  · rename_i hRequest
    rw [hRequest] at hTake
    cases hTake
  · rename_i taken hRequest
    rw [hRequest] at hTake
    cases hTake
    rw [release_records]
    exact takeNext_perm hRequest

theorem remove_perm
    {reads removed : PendingReads}
    (hRemove : reads.remove record = some removed) :
    (record :: removed.records).Perm reads.records := by
  unfold remove at hRemove
  split at hRemove
  · rename_i hMem
    cases hRemove
    rw [release_records]
    exact (List.perm_cons_erase hMem).symm
  · cases hRemove

end PendingReads

end Semantic

end ArktsServer
