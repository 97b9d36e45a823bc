import ArktsServer.Lib.Assignments
import ArktsServer.Store.CatalogReplace

/-
  One refresh with many documents against as many refreshes
  with one document each.  A batch replaces what it could
  parse before it rejects what it could not, so the order of
  two versions of one document is lost between the two.

  Key definitions include:
    * `lastVersion`, `LastUnparsed`
    * `oneByOne`
    * `StoreView`, `memoryView`, `sqliteView`
    * `BatchAgrees`

  Correctness is proven by:
    * `memoryView_lawful`, `sqliteView_lawful`
    * `refresh_agrees_iff`
-/

----------
-- Versions
----------

namespace ArktsServer

namespace Store

open Assignments Chunking

/- The last of the documents that have a URI. -/
def lastVersion
    (documents : List Document)
    (uri : String) : Option Document :=
  documents.reverse.find? (·.uri = uri)

/-
  If one version of a document cannot be parsed, neither can
  its last one.
-/
def LastUnparsed
    (unicode : Unicode)
    (documents : List Document) : Prop :=
  ∀ document ∈ documents,
    parseDocumentSymbols unicode document = none →
    ∀ last ∈ lastVersion documents document.uri,
      parseDocumentSymbols unicode last = none

/- The removals, and then one document after another. -/
def oneByOne
    (first : Nat)
    (removedUris : List String)
    (steps : List (Nat × Document)) : List IndexCall :=
  .refresh first [] removedUris ::
    steps.map fun step => .refresh step.1 [step.2] []

----------
-- Views
----------

/- What a store holds of a document, generations apart. -/
structure StoreView
    {State : Type}
    (store : SymbolStore State)
    (Content : Type) where
  contentOf : State → String → Content
  absent : Content
  stored : DocumentSymbols → Content

namespace StoreView

variable {State Content : Type}
variable {store : SymbolStore State}
variable (view : StoreView store Content)

/- The content of a document and whether it is rejected. -/
def entry
    (state : State)
    (uri : String) : Content × Bool :=
  (view.contentOf state uri,
    decide (uri ∈ store.rejectedUris state))

def removal (uri : String) : String × Content × Bool :=
  (uri, view.absent, false)

def replacement
    (symbols : DocumentSymbols) : String × Content × Bool :=
  (symbols.uri, view.stored symbols, false)

def rejection (uri : String) : String × Content × Bool :=
  (uri, view.absent, true)

def batchWrites
    (batch : RefreshBatch) :
    List (String × Content × Bool) :=
  batch.removedUris.map view.removal
    ++ (batch.replacements.map view.replacement
      ++ batch.rejectedUris.map view.rejection)

/- A batch that is accepted is a list of writes. -/
structure Lawful : Prop where
  written :
    ∀ state batch receipt,
      (store.applyBatch state batch).1 = Except.ok receipt →
      view.entry (store.applyBatch state batch).2 =
        assign (view.entry state) (view.batchWrites batch)
  sorted :
    ∀ left right,
      (∀ uri,
        uri ∈ store.rejectedUris left ↔
          uri ∈ store.rejectedUris right) →
      store.rejectedUris left = store.rejectedUris right

/-
  What a batch should leave behind: the contents and the
  rejected documents of the sequence, and every document as
  its last version has it.
-/
structure BatchAgrees
    (unicode : Unicode)
    (documents : List Document)
    (batched sequenced : State) : Prop where
  contents :
    ∀ uri,
      view.contentOf batched uri =
        view.contentOf sequenced uri
  rejected :
    store.rejectedUris batched = store.rejectedUris sequenced
  lastDecides :
    ∀ uri, ∀ last ∈ lastVersion documents uri,
      (uri ∈ store.indexedUris batched ↔
          (parseDocumentSymbols unicode last).isSome) ∧
        (uri ∈ store.rejectedUris batched ↔
          parseDocumentSymbols unicode last = none)

end StoreView

----------
-- Documents as Writes
----------

section Writes

variable {State Content : Type}
variable {store : SymbolStore State}
variable (view : StoreView store Content)
variable (unicode : Unicode)

/- What the refresh with one document writes. -/
def documentWrite
    (document : Document) : String × Content × Bool :=
  match parseDocumentSymbols unicode document with
  | some symbols =>
      (document.uri, view.stored symbols, false)
  | none => (document.uri, view.absent, true)

theorem parseDocumentSymbols_uri
    {unicode : Unicode}
    {document : Document}
    {symbols : DocumentSymbols}
    (hParse :
      parseDocumentSymbols unicode document = some symbols) :
    symbols.uri = document.uri := by
  unfold parseDocumentSymbols at hParse
  rcases Option.bind_eq_some_iff.mp hParse with
    ⟨scanned, _, hParse⟩
  rcases Option.bind_eq_some_iff.mp hParse with
    ⟨items, _, hParse⟩
  injection hParse with hParse
  rw [← hParse]

theorem mem_sortedUnique
    {uris : List String}
    {uri : String} :
    uri ∈ sortedUnique uris ↔ uri ∈ uris :=
  OrderedSet.mem_ofList

theorem documentWrite_uri (document : Document) :
    (documentWrite view unicode document).1
      = document.uri := by
  unfold documentWrite
  cases parseDocumentSymbols unicode document <;> rfl

/- A rejection is the late kind of write. -/
theorem documentWrite_late (document : Document) :
    (documentWrite view unicode document).2.2 = true ↔
      parseDocumentSymbols unicode document = none := by
  unfold documentWrite
  cases parseDocumentSymbols unicode document <;> simp

theorem lastWrite?_documents
    (documents : List Document)
    (uri : String) :
    lastWrite? (documents.map (documentWrite view unicode))
        uri =
      (lastVersion documents uri).map fun document =>
        (documentWrite view unicode document).2 := by
  unfold lastWrite? lastVersion
  rw [← List.map_reverse, List.find?_map, Option.map_map]
  have hSame :
      (fun write : String × Content × Bool =>
          decide (write.1 = uri))
          ∘ documentWrite view unicode =
        fun document => decide (document.uri = uri) := by
    funext document
    simp only [Function.comp_apply, documentWrite_uri]
  rw [hSame]
  rfl

theorem lateLast_iff (documents : List Document) :
    LateLast (·.2)
        (documents.map (documentWrite view unicode)) ↔
      LastUnparsed unicode documents := by
  constructor
  · intro hLate document hDocument hNone last hLast
    refine (documentWrite_late view unicode last).mp ?_
    refine
      hLate (documentWrite view unicode document)
        (List.mem_map_of_mem hDocument)
        ((documentWrite_late view unicode document).mpr
          hNone) _ ?_
    rw [lastWrite?_documents, documentWrite_uri, hLast]
    rfl
  · intro hLast write hWrite hTrue value hValue
    rcases List.mem_map.mp hWrite with
      ⟨document, hDocument, rfl⟩
    rw [lastWrite?_documents, documentWrite_uri] at hValue
    rcases Option.map_eq_some_iff.mp hValue with
      ⟨last, hVersion, rfl⟩
    exact
      (documentWrite_late view unicode last).mpr
        (hLast document hDocument
          ((documentWrite_late view unicode document).mp
            hTrue) last hVersion)

/- The replacements of a batch are its early writes. -/
theorem replacements_writes (documents : List Document) :
    (documents.filterMap
        (parseDocumentSymbols unicode)).map view.replacement =
      (documents.map (documentWrite view unicode)).filter
        fun write => !write.2.2 := by
  induction documents with
  | nil => rfl
  | cons document documents ih =>
    cases hParse : parseDocumentSymbols unicode document with
    | none =>
      have hWrite :
          (documentWrite view unicode document).2.2 = true :=
        (documentWrite_late view unicode document).mpr hParse
      rw [List.filterMap_cons_none hParse, ih,
        List.map_cons, List.filter_cons_of_neg]
      simp [hWrite]
    | some symbols =>
      have hWrite :
          documentWrite view unicode document =
            view.replacement symbols := by
        unfold documentWrite StoreView.replacement
        rw [hParse, parseDocumentSymbols_uri hParse]
      rw [List.filterMap_cons_some hParse, List.map_cons,
        ih, List.map_cons, hWrite,
        List.filter_cons_of_pos rfl]

/- Its rejections are the late ones, sorted and once each. -/
theorem rejections_writes
    (documents : List Document)
    (uri : String) :
    lastWrite?
        ((sortedUnique
          ((documents.filter fun document =>
            (parseDocumentSymbols unicode
              document).isNone).map (·.uri))).map
          view.rejection) uri =
      lastWrite?
        ((documents.map (documentWrite view unicode)).filter
          fun write => write.2.2) uri := by
  have hLate :
      (documents.map (documentWrite view unicode)).filter
          (fun write => write.2.2) =
        ((documents.filter fun document =>
          (parseDocumentSymbols unicode
            document).isNone).map (·.uri)).map
          view.rejection := by
    induction documents with
    | nil => rfl
    | cons document documents ih =>
      cases hParse : parseDocumentSymbols unicode document with
      | none =>
        have hWrite :
            documentWrite view unicode document =
              view.rejection document.uri := by
          unfold documentWrite
          rw [hParse]
          rfl
        rw [List.map_cons, hWrite,
          List.filter_cons_of_pos rfl, ih,
          List.filter_cons_of_pos (by rw [hParse]; rfl)]
        rfl
      | some symbols =>
        have hWrite :
            (documentWrite view unicode document).2.2 ≠ true := by
          rw [ne_eq, documentWrite_late, hParse]
          exact Option.some_ne_none symbols
        rw [List.map_cons, List.filter_cons_of_neg, ih,
          List.filter_cons_of_neg]
        · simp [hParse]
        · exact hWrite
  rw [hLate]
  have hConstant :
      ∀ uris : List String,
        lastWrite? (uris.map view.rejection) uri =
          if uri ∈ uris then some (view.absent, true)
          else none :=
    fun _ => lastWrite?_constant
  rw [hConstant, hConstant]
  simp only [mem_sortedUnique]

/- A whole batch writes its documents in two phases. -/
theorem assign_batch
    (state : String → Content × Bool)
    (generation : Nat)
    (documents : List Document)
    (removedUris : List String) :
    assign state
        (view.batchWrites
          (refreshBatch unicode generation documents
            removedUris)) =
      assign
        (assign state
          ((sortedUnique removedUris).map view.removal))
        (phased (·.2)
          (documents.map (documentWrite view unicode))) := by
  have hSplit :
      assign state
          (view.batchWrites
            (refreshBatch unicode generation documents
              removedUris)) =
        assign
          (assign state
            ((sortedUnique removedUris).map view.removal))
          ((documents.filterMap
              (parseDocumentSymbols unicode)).map
              view.replacement
            ++ (sortedUnique
              ((documents.filter fun document =>
                (parseDocumentSymbols unicode
                  document).isNone).map (·.uri))).map
              view.rejection) :=
    assign_append _ _ _
  rw [hSplit]
  refine assign_congr fun uri => ?_
  rw [phased, lastWrite?_append, lastWrite?_append,
    replacements_writes, rejections_writes]

/- A batch of one document is its one write. -/
theorem phased_single (document : Document) :
    phased (·.2)
        ([document].map (documentWrite view unicode)) =
      [documentWrite view unicode document] := by
  rw [List.map_singleton]
  unfold phased
  cases hLate : (documentWrite view unicode document).2.2 with
  | false => simp [hLate]
  | true => simp [hLate]

end Writes

----------
-- A Batch and Its Sequence
----------

section Sequences

variable {State Content : Type}
variable {store : SymbolStore State}
variable {view : StoreView store Content}
variable {unicode : Unicode}

variable {removedUris : List String}
variable {state : State}

/- What one accepted refresh makes of the entries. -/
theorem entry_refresh
    (hView : view.Lawful)
    {generation : Nat}
    {documents : List Document}
    (hOk :
      (store.call unicode state
        (.refresh generation documents
          removedUris)).1.isOk = true) :
    view.entry
        (store.call unicode state
          (.refresh generation documents removedUris)).2 =
      assign
        (assign (view.entry state)
          ((sortedUnique removedUris).map view.removal))
        (phased (·.2)
          (documents.map (documentWrite view unicode))) := by
  rcases SymbolStore.isOk_map.mp hOk with ⟨receipt, hReceipt⟩
  rw [← assign_batch view unicode (view.entry state) generation]
  exact hView.written _ _ receipt hReceipt

/- One document after another writes them in their order. -/
theorem entry_steps
    (hView : view.Lawful)
    (steps : List (Nat × Document))
    (hAccepted :
      store.accepts unicode state
        (steps.map fun step =>
          .refresh step.1 [step.2] []) = true) :
    view.entry
        (store.callRun unicode state
          (steps.map fun step =>
            .refresh step.1 [step.2] [])) =
      assign (view.entry state)
        ((steps.map (·.2)).map
          (documentWrite view unicode)) := by
  induction steps generalizing state with
  | nil => rfl
  | cons step steps ih =>
    rw [List.map_cons, SymbolStore.accepts,
      Bool.and_eq_true] at hAccepted
    have hFirst := entry_refresh hView hAccepted.1
    rw [phased_single] at hFirst
    have hRest := ih hAccepted.2
    rw [hFirst] at hRest
    exact hRest

theorem entry_oneByOne
    (hView : view.Lawful)
    {first : Nat}
    {steps : List (Nat × Document)}
    (hAccepted :
      store.accepts unicode state
        (oneByOne first removedUris steps) = true) :
    view.entry
        (store.callRun unicode state
          (oneByOne first removedUris steps)) =
      assign
        (assign (view.entry state)
          ((sortedUnique removedUris).map view.removal))
        ((steps.map (·.2)).map
          (documentWrite view unicode)) := by
  rw [oneByOne, SymbolStore.accepts, Bool.and_eq_true]
    at hAccepted
  have hFirst := entry_refresh hView hAccepted.1
  have hRest := entry_steps hView steps hAccepted.2
  rw [hFirst] at hRest
  exact hRest

/- Equal entries are equal contents and rejections. -/
theorem entry_eq_iff
    (hView : view.Lawful)
    {left right : State} :
    view.entry left = view.entry right ↔
      (∀ uri,
        view.contentOf left uri =
          view.contentOf right uri) ∧
        store.rejectedUris left =
          store.rejectedUris right := by
  constructor
  · intro hSame
    constructor
    · intro uri
      exact congrArg Prod.fst (congrFun hSame uri)
    · refine hView.sorted left right fun uri => ?_
      have hDecide := congrArg Prod.snd (congrFun hSame uri)
      exact decide_eq_decide.mp hDecide
  · rintro ⟨hContents, hRejected⟩
    funext uri
    unfold StoreView.entry
    rw [hContents uri, hRejected]

/- With late versions last, the last version decides. -/
theorem lastDecides_of_lastUnparsed
    (hLawful : store.Lawful)
    {generation : Nat}
    {documents : List Document}
    (hOk :
      (store.call unicode state
        (.refresh generation documents
          removedUris)).1.isOk = true)
    (hLast : LastUnparsed unicode documents)
    {uri : String}
    {last : Document}
    (hVersion : last ∈ lastVersion documents uri) :
    (uri ∈ store.indexedUris
          (store.call unicode state
            (.refresh generation documents
              removedUris)).2 ↔
        (parseDocumentSymbols unicode last).isSome) ∧
      (uri ∈ store.rejectedUris
          (store.call unicode state
            (.refresh generation documents
              removedUris)).2 ↔
        parseDocumentSymbols unicode last = none) := by
  rcases SymbolStore.isOk_map.mp hOk with ⟨receipt, hReceipt⟩
  have hIndexed :=
    hLawful.appliedIndexed state _ receipt hReceipt uri
  have hRejected :=
    hLawful.appliedRejected state _ receipt hReceipt uri
  have hMem : last ∈ documents :=
    List.mem_reverse.mp (List.mem_of_find?_eq_some hVersion)
  have hUri : last.uri = uri := by
    simpa using List.find?_some hVersion
  have hRejects :
      uri ∈ (refreshBatch unicode generation documents
          removedUris).rejectedUris ↔
        parseDocumentSymbols unicode last = none := by
    unfold refreshBatch
    rw [mem_sortedUnique, List.mem_map]
    constructor
    · rintro ⟨document, hDocument, hSame⟩
      rcases List.mem_filter.mp hDocument with
        ⟨hIn, hNone⟩
      refine
        hLast document hIn (Option.isNone_iff_eq_none.mp hNone)
          last ?_
      rw [hSame]
      exact hVersion
    · intro hNone
      exact
        ⟨last,
          List.mem_filter.mpr
            ⟨hMem, Option.isNone_iff_eq_none.mpr hNone⟩,
          hUri⟩
  have hReplaces :
      parseDocumentSymbols unicode last ≠ none →
        uri ∈ (refreshBatch unicode generation documents
          removedUris).replacements.map (·.uri) := by
    intro hSome
    rcases Option.ne_none_iff_exists'.mp hSome with
      ⟨symbols, hParse⟩
    refine List.mem_map.mpr ⟨symbols, ?_, ?_⟩
    · exact List.mem_filterMap.mpr ⟨last, hMem, hParse⟩
    · rw [parseDocumentSymbols_uri hParse, hUri]
  change
    (uri ∈ store.indexedUris (store.applyBatch state _).2 ↔ _)
      ∧ (uri ∈ store.rejectedUris
        (store.applyBatch state _).2 ↔ _)
  rw [hIndexed, hRejected, hRejects, ← Option.ne_none_iff_isSome]
  by_cases hNone : parseDocumentSymbols unicode last = none
  · simp [hNone]
  · have hReplaced := hReplaces hNone
    tauto

theorem batchAgrees_iff
    (hLawful : store.Lawful)
    (hView : view.Lawful)
    {generation first : Nat}
    {steps : List (Nat × Document)}
    (hBatch :
      store.accepts unicode state
        [.refresh generation (steps.map (·.2)) removedUris]
        = true)
    (hSequence :
      store.accepts unicode state
        (oneByOne first removedUris steps) = true) :
    view.BatchAgrees unicode (steps.map (·.2))
        (store.callRun unicode state
          [.refresh generation (steps.map (·.2))
            removedUris])
        (store.callRun unicode state
          (oneByOne first removedUris steps)) ↔
      LastUnparsed unicode (steps.map (·.2)) := by
  rw [SymbolStore.accepts, Bool.and_eq_true] at hBatch
  have hBatched := entry_refresh hView hBatch.1
  have hSequenced := entry_oneByOne hView hSequence
  have hEntries :
      view.entry
          (store.callRun unicode state
            [.refresh generation (steps.map (·.2)) removedUris]) =
        view.entry
          (store.callRun unicode state
            (oneByOne first removedUris steps)) ↔
      LastUnparsed unicode (steps.map (·.2)) := by
    rw [hSequenced, ← lateLast_iff view unicode,
      ← assign_phased_iff, ← hBatched]
    rfl
  rw [entry_eq_iff hView] at hEntries
  constructor
  · intro hAgrees
    exact hEntries.mp ⟨hAgrees.contents, hAgrees.rejected⟩
  · intro hLast
    rcases hEntries.mpr hLast with ⟨hContents, hRejected⟩
    refine ⟨hContents, hRejected, ?_⟩
    intro uri last hVersion
    exact
      lastDecides_of_lastUnparsed hLawful hBatch.1 hLast hVersion

end Sequences

----------
-- The Memory Store
----------

section Memory

open MemoryStore

theorem get?_remove
    (documents : DocumentMap)
    (uri : String) :
    (documents.remove uri).get? =
      Function.update documents.get? uri none := by
  funext other
  unfold DocumentMap.remove DocumentMap.get?
  rw [List.find?_filter]
  by_cases hSame : other = uri
  · subst hSame
    rw [Function.update_self, List.find?_eq_none]
    intro document _
    simp
  · rw [Function.update_of_ne hSame]
    congr 1
    funext document
    by_cases hOther : document.uri = other
    · simp [hOther, hSame]
    · simp [hOther]

theorem get?_insert
    (documents : DocumentMap)
    (document : DocumentSymbols) :
    (documents.insert document).get? =
      Function.update documents.get? document.uri
        (some document) := by
  funext other
  have hSplit :
      (documents.insert document).get? other =
        ((documents.remove document.uri).get? other).or
          ([document].find? (·.uri = other)) :=
    List.find?_append
  rw [hSplit, get?_remove]
  by_cases hSame : other = document.uri
  · subst hSame
    simp
  · rw [Function.update_of_ne hSame,
      Function.update_of_ne hSame]
    simp [Ne.symm hSame]

def memoryView :
    StoreView memoryStore (Option DocumentSymbols) where
  contentOf store := store.documents.get?
  absent := none
  stored := some

/- The entries of the clones that a batch is applied to. -/
def nextEntry
    (next : Next)
    (uri : String) : Option DocumentSymbols × Bool :=
  (next.documents.get? uri,
    decide (uri ∈ next.rejectedDocuments))

theorem nextEntry_remove
    (next : Next)
    (uri : String) :
    nextEntry (next.remove uri) =
      Function.update (nextEntry next)
        (memoryView.removal uri).1
        (memoryView.removal uri).2 :=
  update_prod (get?_remove next.documents uri)
    (decide_update_false fun _ => OrderedSet.mem_erase)

theorem nextEntry_replace
    {next after : Next}
    {symbols : DocumentSymbols}
    (hReplace : next.replace symbols = Except.ok after) :
    nextEntry after =
      Function.update (nextEntry next)
        (memoryView.replacement symbols).1
        (memoryView.replacement symbols).2 := by
  rcases bind_eq_ok.mp hReplace with ⟨_, _, hReplace⟩
  injection hReplace with hReplace
  subst hReplace
  exact
    update_prod (get?_insert next.documents symbols)
      (decide_update_false fun _ => OrderedSet.mem_erase)

theorem nextEntry_reject
    (next : Next)
    (uri : String) :
    nextEntry (next.reject uri) =
      Function.update (nextEntry next)
        (memoryView.rejection uri).1
        (memoryView.rejection uri).2 :=
  update_prod (get?_remove next.documents uri)
    (decide_update_true fun _ =>
      OrderedSet.mem_insert.trans or_comm)

theorem memoryView_lawful : memoryView.Lawful := by
  constructor
  · intro store batch receipt hAnswer
    rcases commit_ok hAnswer with ⟨next, hNext, _, hAfter⟩
    have hEntry :
        memoryView.entry (store.applyBatch batch).2 =
          nextEntry next := by
      unfold MemoryStore.applyBatch
      rw [hAfter]
      rfl
    have hStart :
        memoryView.entry store =
          nextEntry ⟨store.documents, store.rejectedDocuments⟩ :=
      rfl
    rcases bind_eq_ok.mp hNext with ⟨_, _, hNext⟩
    rcases bind_eq_ok.mp hNext with ⟨replaced, hLoop, hNext⟩
    injection hNext with hNext
    subst hNext
    refine hEntry.trans ?_
    rw [StoreView.batchWrites, assign_append, assign_append,
      hStart,
      foldl_assign nextEntry memoryView.rejection
        nextEntry_reject,
      foldlM_assign nextEntry memoryView.replacement
        (fun _ _ _ => nextEntry_replace) hLoop,
      foldl_assign nextEntry memoryView.removal nextEntry_remove]
  · intro left right hSame
    exact OrderedSet.toList_eq_of_mem hSame

end Memory

----------
-- The SQLite Store
----------

section Sqlite

/- The rows of one document, without their generations. -/
def rowsOf
    (tables : CatalogTables)
    (uri : String) : CatalogTables where
  documents :=
    (tables.documents.filter (·.uri = uri)).map fun row =>
      { row with generation := 0 }
  symbols := tables.symbols.filter (·.documentUri = uri)
  exports :=
    (tables.exports.filter (·.documentUri = uri)).map fun row =>
      { row with generation := 0 }
  occurrences :=
    tables.occurrences.filter (·.documentUri = uri)
  identities :=
    tables.identities.filter (·.documentUri = uri)
  aliases := tables.aliases.filter (·.documentUri = uri)
  bindings := tables.bindings.filter (·.documentUri = uri)
  heritage := tables.heritage.filter (·.documentUri = uri)

theorem rowsOf_append
    (first second : CatalogTables)
    (uri : String) :
    rowsOf (first.append second) uri =
      (rowsOf first uri).append (rowsOf second uri) := by
  simp only [rowsOf, CatalogTables.append,
    List.filter_append, List.map_append]

theorem rowsOf_lacks
    {tables : CatalogTables}
    {uri : String}
    (hLacks : tables.Lacks uri) :
    rowsOf tables uri = CatalogTables.empty := by
  have hNone :
      ∀ {Row : Type} (uriOf : Row → String)
        (rows : List Row),
        (∀ row ∈ rows, uriOf row ≠ uri) →
          rows.filter (uriOf · = uri) = [] := by
    intro Row uriOf rows hRows
    refine List.filter_eq_nil_iff.mpr fun row hRow => ?_
    simpa using hRows row hRow
  unfold rowsOf
  rw [hNone _ _ hLacks.documents, hNone _ _ hLacks.symbols,
    hNone _ _ hLacks.exports, hNone _ _ hLacks.occurrences,
    hNone _ _ hLacks.identities, hNone _ _ hLacks.aliases,
    hNone _ _ hLacks.bindings, hNone _ _ hLacks.heritage]
  rfl

/- The rows of other documents stay when one is deleted. -/
theorem rowsOf_deleteDocument
    (uri : String)
    (tables : CatalogTables) :
    rowsOf (deleteDocument uri tables) =
      Function.update (rowsOf tables) uri
        CatalogTables.empty := by
  funext other
  by_cases hSame : other = uri
  · subst hSame
    rw [Function.update_self]
    exact rowsOf_lacks (lacks_deleteDocument other tables)
  · rw [Function.update_of_ne hSame]
    have hOther :
        ∀ {Row : Type} (uriOf : Row → String)
          (rows : List Row),
          (rows.filter (uriOf · ≠ uri)).filter
              (uriOf · = other) =
            rows.filter (uriOf · = other) := by
      intro Row uriOf rows
      rw [List.filter_filter]
      refine List.filter_congr fun row _ => ?_
      by_cases hRow : uriOf row = other
      · simp [hRow, hSame]
      · simp [hRow]
    unfold rowsOf deleteDocument
    rw [hOther, hOther, hOther, hOther, hOther, hOther,
      hOther, hOther]

variable (unicode : Unicode)

/- A document's rows are the rows of its URI. -/
theorem rowsOf_documentTables
    (generation : Nat)
    (document : DocumentSymbols) :
    rowsOf (documentTables unicode generation document)
        document.uri =
      documentTables unicode 0 document := by
  have hLacks :
      ∀ uri, document.uri ≠ uri →
        (documentTables unicode generation document).Lacks uri :=
    fun _ hUri => lacks_documentTables unicode hUri
  have hAll :
      ∀ {Row : Type} (uriOf : Row → String)
        (rows : List Row),
        (∀ uri, document.uri ≠ uri →
          ∀ row ∈ rows, uriOf row ≠ uri) →
          rows.filter (uriOf · = document.uri) = rows := by
    intro Row uriOf rows hOthers
    refine List.filter_eq_self.mpr fun row hRow => ?_
    by_contra hForeign
    have hUri : document.uri ≠ uriOf row :=
      fun hSame => hForeign (decide_eq_true hSame.symm)
    exact hOthers (uriOf row) hUri row hRow rfl
  unfold rowsOf
  rw [hAll _ _ fun uri hUri => (hLacks uri hUri).documents,
    hAll _ _ fun uri hUri => (hLacks uri hUri).symbols,
    hAll _ _ fun uri hUri => (hLacks uri hUri).exports,
    hAll _ _ fun uri hUri => (hLacks uri hUri).occurrences,
    hAll _ _ fun uri hUri => (hLacks uri hUri).identities,
    hAll _ _ fun uri hUri => (hLacks uri hUri).aliases,
    hAll _ _ fun uri hUri => (hLacks uri hUri).bindings,
    hAll _ _ fun uri hUri => (hLacks uri hUri).heritage]
  unfold documentTables
  have hExports :
      (exportRows unicode generation document).map
          (fun row => { row with generation := 0 }) =
        exportRows unicode 0 document := by
    unfold exportRows
    rw [List.map_map]
    rfl
  rw [hExports]
  rfl

theorem rowsOf_replaced
    (generation : Nat)
    (document : DocumentSymbols)
    (tables : CatalogTables) :
    rowsOf
        ((deleteDocument document.uri tables).append
          (documentTables unicode generation document)) =
      Function.update (rowsOf tables) document.uri
        (documentTables unicode 0 document) := by
  funext other
  rw [rowsOf_append, rowsOf_deleteDocument]
  by_cases hSame : other = document.uri
  · subst hSame
    rw [Function.update_self, Function.update_self,
      CatalogTables.empty_append, rowsOf_documentTables]
  · rw [Function.update_of_ne hSame,
      Function.update_of_ne hSame,
      rowsOf_lacks (lacks_documentTables unicode (Ne.symm hSame)),
      CatalogTables.append_empty]

def sqliteView :
    StoreView (sqliteStore unicode) CatalogTables where
  contentOf database := rowsOf database.tables
  absent := CatalogTables.empty
  stored := documentTables unicode 0

variable (database : CatalogDatabase)

/- The entries of a database within a transaction. -/
def databaseEntry
    (uri : String) : CatalogTables × Bool :=
  (rowsOf database.tables uri,
    decide (uri ∈ database.rejected))

theorem entry_eq_databaseEntry
    (database : CatalogDatabase) :
    (sqliteView unicode).entry database =
      databaseEntry database := by
  funext uri
  exact
    congrArg (Prod.mk _)
      (decide_eq_decide.mpr mem_readRejectedDocuments)

theorem databaseEntry_remove
    (uri : String) :
    databaseEntry (removeDocument database uri) =
      Function.update (databaseEntry database)
        ((sqliteView unicode).removal uri).1
        ((sqliteView unicode).removal uri).2 :=
  update_prod (rowsOf_deleteDocument uri database.tables)
    (decide_update_false fun _ => mem_rejected_filter)

theorem databaseEntry_replace
    {generation : Nat}
    {database after : CatalogDatabase}
    {symbols : DocumentSymbols}
    (hReplace :
      replaceDocument unicode generation database symbols =
        Except.ok after) :
    databaseEntry after =
      Function.update (databaseEntry database)
        ((sqliteView unicode).replacement symbols).1
        ((sqliteView unicode).replacement symbols).2 := by
  rcases replaceDocument_eq unicode hReplace with ⟨_, rfl⟩
  exact
    update_prod
      (rowsOf_replaced unicode generation symbols database.tables)
      (decide_update_false fun _ => mem_rejected_filter)

theorem databaseEntry_reject
    (uri : String) :
    databaseEntry (rejectDocument database uri) =
      Function.update (databaseEntry database)
        ((sqliteView unicode).rejection uri).1
        ((sqliteView unicode).rejection uri).2 := by
  refine
    update_prod (rowsOf_deleteDocument uri database.tables)
      (decide_update_true fun other => ?_)
  have hMem :
      other ∈ insertRowsIgnoring id [uri] database.rejected ↔
        other ∈ database.rejected ∨ other ∈ [uri] :=
    mem_insertRowsIgnoring
  rw [List.mem_singleton] at hMem
  exact hMem

theorem sqliteView_lawful : (sqliteView unicode).Lawful := by
  constructor
  · intro database batch receipt hAnswer
    rcases applyBatch_stages unicode (orRollback_ok hAnswer)
      with ⟨_, _, replaced, hLoop, hAfter, _⟩
    have hEntry :
        databaseEntry
            (orRollback database
              (applyBatch unicode batch database)).2 =
          databaseEntry
            (batch.rejectedUris.foldl rejectDocument
              replaced) := by
      rw [hAfter]
      rfl
    rw [entry_eq_databaseEntry, entry_eq_databaseEntry]
    refine hEntry.trans ?_
    rw [StoreView.batchWrites, assign_append, assign_append,
      foldl_assign databaseEntry
        (sqliteView unicode).rejection
        (databaseEntry_reject unicode),
      foldlM_assign databaseEntry
        (sqliteView unicode).replacement
        (fun _ _ _ => databaseEntry_replace unicode) hLoop,
      foldl_assign databaseEntry
        (sqliteView unicode).removal
        (databaseEntry_remove unicode)]
  · intro left right hSame
    exact
      OrderedSet.toList_eq_of_mem fun uri =>
        OrderedSet.mem_ofList.trans
          ((mem_readRejectedDocuments.symm.trans
            ((hSame uri).trans mem_readRejectedDocuments)).trans
            OrderedSet.mem_ofList.symm)

end Sqlite

----------
-- Both Stores
----------

/-
  On either store, a refresh with many documents leaves what
  the removals and one refresh for each document leave, and
  every document as its last version has it, exactly when no
  document has an unparsable version that a parsable one
  follows as the last.
-/
theorem refresh_agrees_iff
    (unicode : Unicode)
    (generation first : Nat)
    (removedUris : List String)
    (steps : List (Nat × Document)) :
    (∀ store : MemoryStore,
      memoryStore.accepts unicode store
          [.refresh generation (steps.map (·.2))
            removedUris] = true →
      memoryStore.accepts unicode store
          (oneByOne first removedUris steps) = true →
      (memoryView.BatchAgrees unicode (steps.map (·.2))
          (memoryStore.callRun unicode store
            [.refresh generation (steps.map (·.2))
              removedUris])
          (memoryStore.callRun unicode store
            (oneByOne first removedUris steps)) ↔
        LastUnparsed unicode (steps.map (·.2)))) ∧
      ∀ database : CatalogDatabase,
        (sqliteStore unicode).accepts unicode database
            [.refresh generation (steps.map (·.2))
              removedUris] = true →
        (sqliteStore unicode).accepts unicode database
            (oneByOne first removedUris steps) = true →
        ((sqliteView unicode).BatchAgrees unicode
            (steps.map (·.2))
            ((sqliteStore unicode).callRun unicode database
              [.refresh generation (steps.map (·.2))
                removedUris])
            ((sqliteStore unicode).callRun unicode database
              (oneByOne first removedUris steps)) ↔
          LastUnparsed unicode (steps.map (·.2))) := by
  constructor
  · intro store hBatch hSequence
    exact
      batchAgrees_iff memoryStore_lawful memoryView_lawful
        hBatch hSequence
  · intro database hBatch hSequence
    exact
      batchAgrees_iff (sqliteStore_lawful unicode)
        (sqliteView_lawful unicode) hBatch hSequence

/- Two versions of a card, and a page that is unfinished. -/
def cardTwice : List (Nat × Document) :=
  [(2, ⟨"file:///a.ets", "export class Card {}".toList⟩),
    (3, ⟨"file:///b.ets", "/*".toList⟩),
    (4, ⟨"file:///a.ets", "class Card {}".toList⟩)]

theorem refresh_agrees_cardTwice :
    (memoryView.BatchAgrees Unicode.ascii
        (cardTwice.map (·.2))
        (memoryStore.callRun Unicode.ascii {}
          [.refresh 1 (cardTwice.map (·.2))
            ["file:///c.ets"]])
        (memoryStore.callRun Unicode.ascii {}
          (oneByOne 1 ["file:///c.ets"] cardTwice)) ↔
      LastUnparsed Unicode.ascii (cardTwice.map (·.2))) ∧
      ((sqliteView Unicode.ascii).BatchAgrees Unicode.ascii
          (cardTwice.map (·.2))
          ((sqliteStore Unicode.ascii).callRun Unicode.ascii
            CatalogDatabase.new
            [.refresh 1 (cardTwice.map (·.2))
              ["file:///c.ets"]])
          ((sqliteStore Unicode.ascii).callRun Unicode.ascii
            CatalogDatabase.new
            (oneByOne 1 ["file:///c.ets"] cardTwice)) ↔
        LastUnparsed Unicode.ascii
          (cardTwice.map (·.2))) :=
  ⟨(refresh_agrees_iff Unicode.ascii 1 1 ["file:///c.ets"]
      cardTwice).1 {} (by decide +kernel)
      (by decide +kernel),
    (refresh_agrees_iff Unicode.ascii 1 1 ["file:///c.ets"]
      cardTwice).2 CatalogDatabase.new (by decide +kernel)
      (by decide +kernel)⟩

/- An unfinished comment that the next version has closed. -/
def finishedComment : List (Nat × Document) :=
  [(2, ⟨"file:///a.ets", "/*".toList⟩),
    (3, ⟨"file:///a.ets", "/**/".toList⟩)]

theorem refresh_differs_finishedComment :
    memoryStore.accepts Unicode.ascii {}
        [.refresh 1 (finishedComment.map (·.2)) []] = true ∧
      memoryStore.accepts Unicode.ascii {}
        (oneByOne 1 [] finishedComment) = true ∧
      memoryStore.rejectedUris
          (memoryStore.callRun Unicode.ascii {}
            [.refresh 1 (finishedComment.map (·.2)) []])
        = ["file:///a.ets"] ∧
      memoryStore.rejectedUris
          (memoryStore.callRun Unicode.ascii {}
            (oneByOne 1 [] finishedComment)) = [] ∧
      ¬ memoryView.BatchAgrees Unicode.ascii
        (finishedComment.map (·.2))
        (memoryStore.callRun Unicode.ascii {}
          [.refresh 1 (finishedComment.map (·.2)) []])
        (memoryStore.callRun Unicode.ascii {}
          (oneByOne 1 [] finishedComment)) := by
  have hBatch :
      memoryStore.rejectedUris
          (memoryStore.callRun Unicode.ascii {}
            [.refresh 1 (finishedComment.map (·.2)) []])
        = ["file:///a.ets"] := by
    decide +kernel
  have hSequence :
      memoryStore.rejectedUris
          (memoryStore.callRun Unicode.ascii {}
            (oneByOne 1 [] finishedComment)) = [] := by
    decide +kernel
  refine
    ⟨by decide +kernel, by decide +kernel, hBatch, hSequence,
      ?_⟩
  intro hAgrees
  have hSame := hAgrees.rejected
  rw [hBatch, hSequence] at hSame
  cases hSame

end Store

end ArktsServer
