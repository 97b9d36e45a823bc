import ArktsServer.Core.WorkspaceIndex
import ArktsServer.Lib.Chunking
import ArktsServer.Lib.Transition

/-
  The calls of a workspace index on a symbol store, and what
  a store owes to them: which documents are indexed and which
  are rejected after a batch, and that a call that fails
  leaves the store alone.

  Key definitions include:
    * `SymbolStore`
    * `WorkspaceIndex.activateCatalog`
    * `IndexCall`, `SymbolStore.call`, `SymbolStore.callRun`
    * `SymbolStore.Lawful`
    * `SymbolStore.Sound`

  Correctness is proven by:
    * `SymbolStore.Lawful.sound`
-/

namespace ArktsServer

open Transition

----------
-- Stores
----------

/-
  A store with states: the two writing calls of the trait,
  which answer and leave a state behind, and what the state
  holds.
-/
structure SymbolStore (State : Type) where
  applyBatch :
    State → RefreshBatch →
      Except StoreError CommitReceipt × State
  replaceAll :
    State → FullCatalogBatch →
      Except StoreError CommitReceipt × State
  indexedUris : State → List String
  metadata : State → StoreMetadata

/- `WorkspaceIndex::activate_catalog` over `replace_all`. -/
def WorkspaceIndex.activateCatalog
    (replaceAll :
      FullCatalogBatch → Except StoreError CommitReceipt)
    (generation : Nat)
    (documents : List DocumentSymbols)
    (rejectedUris : List String) :
    Except StoreError RefreshReport :=
  (replaceAll ⟨generation, documents, rejectedUris⟩).map
    (refreshReport documents.length)

----------
-- Calls
----------

inductive IndexCall where
| refresh
    (generation : Nat)
    (changedDocuments : List Document)
    (removedUris : List String)
| activateCatalog
    (generation : Nat)
    (documents : List DocumentSymbols)
    (rejectedUris : List String)
deriving DecidableEq

/- No document of a catalog is among its rejected ones. -/
def IndexCall.Separate : IndexCall → Prop
| .refresh _ _ _ => True
| .activateCatalog _ documents rejectedUris =>
    ∀ document ∈ documents, document.uri ∉ rejectedUris

instance : DecidablePred IndexCall.Separate
| .refresh _ _ _ => isTrue trivial
| .activateCatalog _ documents rejectedUris =>
    inferInstanceAs
      (Decidable
        (∀ document ∈ documents,
          document.uri ∉ rejectedUris))

namespace SymbolStore

variable {State : Type}
variable (unicode : Unicode)

section Calls

variable (store : SymbolStore State)

def call
    (state : State) :
    IndexCall → Except StoreError RefreshReport × State
| .refresh generation changedDocuments removedUris =>
    (WorkspaceIndex.refresh unicode
        (fun batch => (store.applyBatch state batch).1)
        generation changedDocuments removedUris,
      (store.applyBatch state
        (refreshBatch unicode generation changedDocuments
          removedUris)).2)
| .activateCatalog generation documents rejectedUris =>
    (WorkspaceIndex.activateCatalog
        (fun batch => (store.replaceAll state batch).1)
        generation documents rejectedUris,
      (store.replaceAll state
        ⟨generation, documents, rejectedUris⟩).2)

def callRun
    (state : State)
    (calls : List IndexCall) : State :=
  run (fun state call => (store.call unicode state call).2)
    state calls

/- No call of a run is answered with an error. -/
def accepts (state : State) : List IndexCall → Bool
| [] => true
| call :: later =>
    (store.call unicode state call).1.isOk &&
      accepts (store.call unicode state call).2 later

def committedGeneration (state : State) : Nat :=
  (store.metadata state).committedGeneration

def rejectedUris (state : State) : List String :=
  (store.metadata state).rejectedDocuments

/- No document is both indexed and rejected. -/
def Disjoint (state : State) : Prop :=
  ∀ uri ∈ store.indexedUris state,
    uri ∉ store.rejectedUris state

instance (state : State) : Decidable (store.Disjoint state) :=
  inferInstanceAs
    (Decidable
      (∀ uri ∈ store.indexedUris state,
        uri ∉ store.rejectedUris state))

/- What one call must do to the state that it finds. -/
structure Sound
    (before after : State)
    (answer : Except StoreError RefreshReport) : Prop where
  disjoint : store.Disjoint after
  newer :
    ∀ report, answer = Except.ok report →
      store.committedGeneration before
        < store.committedGeneration after
  reported :
    ∀ report, answer = Except.ok report →
      report.committedGeneration
          = store.committedGeneration after
        ∧ report.rejectedDocuments = store.rejectedUris after
  ready :
    ∀ report, answer = Except.ok report →
      (report.state = .ready ↔ store.rejectedUris after = [])
  unchanged :
    ∀ error, answer = Except.error error → after = before

/- Every call of a run is sound, from the start on. -/
structure SoundRun
    (start : State)
    (calls : List IndexCall) : Prop where
  initially : store.Disjoint start
  each :
    ∀ earlier call later,
      calls = earlier ++ call :: later →
      let before := store.callRun unicode start earlier
      store.Sound before
        (store.callRun unicode start (earlier ++ [call]))
        (store.call unicode before call).1

end Calls

----------
-- Loops
----------

section Loops

variable (Holds : State → String → Prop)
variable {step : State → String → State}

theorem foldl_removes
    (hStep :
      ∀ state uri other,
        Holds (step state uri) other ↔
          Holds state other ∧ other ≠ uri)
    (uris : List String)
    (state : State)
    (other : String) :
    Holds (uris.foldl step state) other ↔
      Holds state other ∧ other ∉ uris := by
  induction uris generalizing state with
  | nil => simp
  | cons uri uris ih =>
    rw [List.foldl_cons, ih, hStep, List.mem_cons]
    tauto

theorem foldl_adds
    (hStep :
      ∀ state uri other,
        Holds (step state uri) other ↔
          Holds state other ∨ other = uri)
    (uris : List String)
    (state : State)
    (other : String) :
    Holds (uris.foldl step state) other ↔
      Holds state other ∨ other ∈ uris := by
  rw [← not_iff_not, not_or]
  exact
    foldl_removes (fun state other => ¬ Holds state other)
      (fun state uri other => by rw [hStep, not_or]) uris state
      other

variable {documents : List DocumentSymbols}
variable {state last : State}

theorem foldlM_removes
    {step :
      State → DocumentSymbols → Except StoreError State}
    (hStep :
      ∀ state document next other,
        step state document = Except.ok next →
        (Holds next other ↔
          Holds state other ∧ other ≠ document.uri))
    (hLoop : documents.foldlM step state = Except.ok last)
    (other : String) :
    Holds last other ↔
      Holds state other ∧ other ∉ documents.map (·.uri) := by
  induction documents generalizing state with
  | nil =>
    cases hLoop
    simp
  | cons document documents ih =>
    rw [List.foldlM_cons] at hLoop
    rcases Chunking.bind_eq_ok.mp hLoop with
      ⟨next, hNext, hRest⟩
    rw [ih hRest, hStep state document next other hNext,
      List.map_cons, List.mem_cons]
    tauto

theorem foldlM_adds
    {step :
      State → DocumentSymbols → Except StoreError State}
    (hStep :
      ∀ state document next other,
        step state document = Except.ok next →
        (Holds next other ↔
          Holds state other ∨ other = document.uri))
    (hLoop : documents.foldlM step state = Except.ok last)
    (other : String) :
    Holds last other ↔
      Holds state other ∨ other ∈ documents.map (·.uri) := by
  rw [← not_iff_not, not_or]
  exact
    foldlM_removes (fun state other => ¬ Holds state other)
      (fun state document next other hNext => by
        rw [hStep state document next other hNext, not_or])
      hLoop other

end Loops

----------
-- Lawful Stores
----------

/- What a committed write has made of a state. -/
structure Committed
    (store : SymbolStore State)
    (before after : State)
    (generation : Nat)
    (receipt : CommitReceipt) : Prop where
  newer : store.committedGeneration before < generation
  moved : store.committedGeneration after = generation
  receiptGeneration :
    receipt.committedGeneration = generation
  receiptRejected :
    receipt.rejectedDocuments = store.rejectedUris after

structure Lawful (store : SymbolStore State) : Prop where
  applyError :
    ∀ state batch error,
      (store.applyBatch state batch).1 = Except.error error →
      (store.applyBatch state batch).2 = state
  applied :
    ∀ state batch receipt,
      (store.applyBatch state batch).1 = Except.ok receipt →
      Committed store state (store.applyBatch state batch).2
        batch.generation receipt
  appliedIndexed :
    ∀ state batch receipt,
      (store.applyBatch state batch).1 = Except.ok receipt →
      ∀ uri,
        uri
            ∈ store.indexedUris
              (store.applyBatch state batch).2 ↔
          uri ∉ batch.rejectedUris ∧
            (uri ∈ batch.replacements.map (·.uri) ∨
              uri ∈ store.indexedUris state ∧
                uri ∉ batch.removedUris)
  appliedRejected :
    ∀ state batch receipt,
      (store.applyBatch state batch).1 = Except.ok receipt →
      ∀ uri,
        uri
            ∈ store.rejectedUris
              (store.applyBatch state batch).2 ↔
          uri ∈ batch.rejectedUris ∨
            uri ∈ store.rejectedUris state ∧
              uri ∉ batch.removedUris ∧
                uri ∉ batch.replacements.map (·.uri)
  replaceError :
    ∀ state batch error,
      (store.replaceAll state batch).1 = Except.error error →
      (store.replaceAll state batch).2 = state
  replaced :
    ∀ state batch receipt,
      (store.replaceAll state batch).1 = Except.ok receipt →
      Committed store state (store.replaceAll state batch).2
        batch.generation receipt
  replacedIndexed :
    ∀ state batch receipt,
      (store.replaceAll state batch).1 = Except.ok receipt →
      ∀ uri,
        uri
            ∈ store.indexedUris
              (store.replaceAll state batch).2 ↔
          uri ∈ batch.documents.map (·.uri)
  replacedRejected :
    ∀ state batch receipt,
      (store.replaceAll state batch).1 = Except.ok receipt →
      ∀ uri,
        uri
            ∈ store.rejectedUris
              (store.replaceAll state batch).2 ↔
          uri ∈ batch.rejectedUris

section Soundness

variable {store : SymbolStore State}
variable {Value Result : Type}
variable {answer : Except StoreError Value}
variable {convert : Value → Result}

theorem map_eq_ok
    {result : Result}
    (hOk : answer.map convert = Except.ok result) :
    ∃ value,
      answer = Except.ok value ∧ convert value = result := by
  cases answer with
  | error error => cases hOk
  | ok value =>
    injection hOk with hResult
    exact ⟨value, rfl, hResult⟩

theorem map_eq_error
    {error : StoreError}
    (hError : answer.map convert = Except.error error) :
    answer = Except.error error := by
  cases answer with
  | error other =>
    injection hError with hOther
    rw [hOther]
  | ok value => cases hError

theorem isOk_map
    {convert : Value → Result} :
    (answer.map convert).isOk = true ↔
      ∃ value, answer = Except.ok value := by
  cases answer with
  | error error =>
    constructor
    · intro hOk
      cases hOk
    · rintro ⟨value, hValue⟩
      cases hValue
  | ok value => exact iff_of_true rfl ⟨value, rfl⟩

/- A report is ready when its receipt rejects nothing. -/
theorem refreshReport_ready
    {indexed : Nat}
    {receipt : CommitReceipt} :
    (refreshReport indexed receipt).state = .ready ↔
      receipt.rejectedDocuments = [] := by
  unfold refreshReport stateOfRejected
  cases receipt.rejectedDocuments <;> simp

/- A committed write and its report are sound. -/
theorem Committed.sound
    {before after : State}
    {generation indexed : Nat}
    {answer : Except StoreError CommitReceipt}
    (hCommitted :
      ∀ receipt, answer = Except.ok receipt →
        Committed store before after generation receipt)
    (hError :
      ∀ error, answer = Except.error error → after = before)
    (hDisjoint : store.Disjoint after) :
    store.Sound before after
      (answer.map (refreshReport indexed)) := by
  constructor
  · exact hDisjoint
  · intro report hOk
    rcases map_eq_ok hOk with ⟨receipt, hReceipt, _⟩
    have hWrite := hCommitted receipt hReceipt
    rw [hWrite.moved]
    exact hWrite.newer
  · intro report hOk
    rcases map_eq_ok hOk with ⟨receipt, hReceipt, rfl⟩
    have hWrite := hCommitted receipt hReceipt
    exact
      ⟨hWrite.receiptGeneration.trans hWrite.moved.symm,
        hWrite.receiptRejected⟩
  · intro report hOk
    rcases map_eq_ok hOk with ⟨receipt, hReceipt, rfl⟩
    rw [refreshReport_ready,
      (hCommitted receipt hReceipt).receiptRejected]
  · intro error hFailed
    exact hError error (map_eq_error hFailed)

variable {state : State}

/- A batch keeps the two sets of a store apart. -/
theorem Lawful.applyBatch_disjoint
    (hLawful : store.Lawful)
    (batch : RefreshBatch)
    (hDisjoint : store.Disjoint state) :
    store.Disjoint (store.applyBatch state batch).2 := by
  cases hAnswer : (store.applyBatch state batch).1 with
  | error error =>
    rw [hLawful.applyError state batch error hAnswer]
    exact hDisjoint
  | ok receipt =>
    intro uri hIndexed hRejected
    rw [hLawful.appliedIndexed state batch receipt hAnswer]
      at hIndexed
    rw [hLawful.appliedRejected state batch receipt hAnswer]
      at hRejected
    rcases hIndexed with ⟨hKept, hIndexed⟩
    rcases hRejected with hNow | ⟨hOld, _, hNotReplaced⟩
    · exact hKept hNow
    · rcases hIndexed with hReplaced | ⟨hBefore, _⟩
      · exact hNotReplaced hReplaced
      · exact hDisjoint uri hBefore hOld

theorem Lawful.replaceAll_disjoint
    (hLawful : store.Lawful)
    {batch : FullCatalogBatch}
    (hSeparate :
      ∀ document ∈ batch.documents,
        document.uri ∉ batch.rejectedUris)
    (hDisjoint : store.Disjoint state) :
    store.Disjoint (store.replaceAll state batch).2 := by
  cases hAnswer : (store.replaceAll state batch).1 with
  | error error =>
    rw [hLawful.replaceError state batch error hAnswer]
    exact hDisjoint
  | ok receipt =>
    intro uri hIndexed hRejected
    rw [hLawful.replacedIndexed state batch receipt hAnswer]
      at hIndexed
    rw [hLawful.replacedRejected state batch receipt hAnswer]
      at hRejected
    rcases List.mem_map.mp hIndexed with
      ⟨document, hDocument, rfl⟩
    exact hSeparate document hDocument hRejected

/- One call on a state whose sets are apart. -/
theorem Lawful.call_sound
    (hLawful : store.Lawful)
    {call : IndexCall}
    (hSeparate : call.Separate)
    (hDisjoint : store.Disjoint state) :
    store.Sound state (store.call unicode state call).2
      (store.call unicode state call).1 := by
  cases call with
  | refresh generation changedDocuments removedUris =>
    exact
      Committed.sound
        (hLawful.applied state
          (refreshBatch unicode generation changedDocuments
            removedUris))
        (hLawful.applyError state _)
        (hLawful.applyBatch_disjoint _ hDisjoint)
  | activateCatalog generation documents rejectedUris =>
    exact
      Committed.sound
        (hLawful.replaced state
          ⟨generation, documents, rejectedUris⟩)
        (hLawful.replaceError state _)
        (hLawful.replaceAll_disjoint hSeparate hDisjoint)

/- A run of separate calls is sound from end to end. -/
theorem Lawful.sound
    (hLawful : store.Lawful)
    {start : State}
    (hStart : store.Disjoint start)
    {calls : List IndexCall}
    (hSeparate : ∀ call ∈ calls, call.Separate) :
    store.SoundRun unicode start calls := by
  have hReached :
      ∀ sofar : List IndexCall,
        (∀ call ∈ sofar, call.Separate) →
        store.Disjoint (store.callRun unicode start sofar) := by
    intro sofar
    induction sofar generalizing start with
    | nil => exact fun _ => hStart
    | cons call sofar ih =>
      intro hCalls
      have hNext :
          store.Disjoint (store.call unicode start call).2 :=
        (hLawful.call_sound unicode
          (hCalls call List.mem_cons_self)
          hStart).disjoint
      exact
        ih hNext fun other hOther =>
          hCalls other (List.mem_cons_of_mem _ hOther)
  refine ⟨hStart, ?_⟩
  intro earlier call later hCalls
  have hCall : call ∈ calls := by
    rw [hCalls]
    exact List.mem_append_right _ List.mem_cons_self
  have hEarlier : ∀ other ∈ earlier, other.Separate := by
    intro other hOther
    apply hSeparate
    rw [hCalls]
    exact List.mem_append_left _ hOther
  have hNext :
      store.callRun unicode start (earlier ++ [call]) =
        (store.call unicode
          (store.callRun unicode start earlier) call).2 := by
    unfold callRun
    rw [run_append]
    rfl
  rw [hNext]
  exact
    hLawful.call_sound unicode (hSeparate call hCall)
      (hReached earlier hEarlier)

end Soundness

end SymbolStore

end ArktsServer
