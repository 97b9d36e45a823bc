import ArktsServer.Core.WorkspaceIndex
import ArktsServer.Lib.Components

/-
  The symbol store that keeps everything in memory: a map of
  documents by URI, the set of rejected URIs and the
  committed generation.

  The values of the map stand in a list.  The order in which
  the map is iterated over is not known, so statements about
  results quantify over all orders of the list.

  Key definitions include:
    * `DocumentMap`, `DocumentMap.reorder`
    * `MemoryStore`
    * `MemoryStore.applyBatch`, `MemoryStore.replaceAll`
    * `MemoryStore.search`, `MemoryStore.searchExports`
    * `MemoryStore.referenceNames`
-/

----------
-- Documents
----------

namespace ArktsServer

/- The `HashMap` of the documents, which have one URI each. -/
structure DocumentMap where
  values : List DocumentSymbols
  distinct : (values.map (·.uri)).Nodup
deriving DecidableEq

namespace DocumentMap

def empty : DocumentMap :=
  ⟨[], List.nodup_nil⟩

def keys (documents : DocumentMap) : List String :=
  documents.values.map (·.uri)

variable (documents : DocumentMap)

def get?
    (uri : String) : Option DocumentSymbols :=
  documents.values.find? (·.uri = uri)

/- The same documents, iterated over in another order. -/
def reorder
    (values : List DocumentSymbols)
    (hPerm : values.Perm documents.values) :
    DocumentMap where
  values := values
  distinct := (hPerm.map _).nodup_iff.mpr documents.distinct

def remove
    (uri : String) : DocumentMap where
  values := documents.values.filter (·.uri ≠ uri)
  distinct :=
    (List.filter_sublist.map _).nodup documents.distinct

theorem not_mem_remove
    (uri : String) :
    uri ∉ (documents.remove uri).keys := by
  intro hMem
  rcases List.mem_map.mp hMem with ⟨document, hValue, hUri⟩
  have hOther := (List.mem_filter.mp hValue).2
  simp [hUri] at hOther

/- Insert a document, or replace the one of its URI. -/
def insert
    (document : DocumentSymbols) : DocumentMap where
  values := (documents.remove document.uri).values ++ [document]
  distinct := by
    rw [List.map_append]
    refine
      List.nodup_append.mpr
        ⟨(documents.remove document.uri).distinct,
          List.nodup_singleton _, ?_⟩
    intro uri hUri other hOther
    rw [List.mem_singleton.mp hOther]
    rintro rfl
    exact documents.not_mem_remove _ hUri

theorem values_insert
    (document : DocumentSymbols) :
    (documents.insert document).values =
      (documents.remove document.uri).values ++ [document] :=
  rfl

@[simp] theorem mem_keys_remove
    {documents : DocumentMap}
    {uri other : String} :
    other ∈ (documents.remove uri).keys ↔
      other ∈ documents.keys ∧ other ≠ uri := by
  unfold keys remove
  simp only [List.mem_map, List.mem_filter, ne_eq,
    decide_eq_true_eq]
  constructor
  · rintro ⟨document, ⟨hMem, hOther⟩, rfl⟩
    exact ⟨⟨document, hMem, rfl⟩, hOther⟩
  · rintro ⟨⟨document, hMem, rfl⟩, hOther⟩
    exact ⟨document, ⟨hMem, hOther⟩, rfl⟩

@[simp] theorem mem_keys_insert
    {documents : DocumentMap}
    {document : DocumentSymbols}
    {other : String} :
    other ∈ (documents.insert document).keys ↔
      other ∈ documents.keys ∨ other = document.uri := by
  have hKeys :
      (documents.insert document).keys =
        (documents.remove document.uri).keys
          ++ [document.uri] := by
    unfold keys insert
    rw [List.map_append]
    rfl
  rw [hKeys, List.mem_append, mem_keys_remove, List.mem_singleton]
  tauto

end DocumentMap

----------
-- Stores
----------

structure MemoryStore where
  documents : DocumentMap := DocumentMap.empty
  rejectedDocuments : OrderedSet String := OrderedSet.empty
  committedGeneration : Nat := 0
deriving DecidableEq

namespace MemoryStore

/- The same store, iterated over in another order. -/
def reorder
    (store : MemoryStore)
    (values : List DocumentSymbols)
    (hPerm : values.Perm store.documents.values) :
    MemoryStore :=
  { store with
    documents := store.documents.reorder values hPerm }

def metadata (store : MemoryStore) : StoreMetadata where
  committedGeneration := store.committedGeneration
  rejectedDocuments := store.rejectedDocuments.toList

/- The clones that a batch is applied to. -/
structure Next where
  documents : DocumentMap
  rejectedDocuments : OrderedSet String

def Next.remove (next : Next) (uri : String) : Next :=
  ⟨next.documents.remove uri,
    next.rejectedDocuments.erase uri⟩

def Next.replace
    (next : Next)
    (replacement : DocumentSymbols) :
    Except StoreError Next := do
  ensureSymbolUris replacement
  pure
    ⟨next.documents.insert replacement,
      next.rejectedDocuments.erase replacement.uri⟩

def Next.reject (next : Next) (uri : String) : Next :=
  ⟨next.documents.remove uri,
    next.rejectedDocuments.insert uri⟩

variable (store : MemoryStore)

/- The three loops of `apply_batch`. -/
def nextContents
    (batch : RefreshBatch) : Except StoreError Next := do
  ensureNewerGeneration store.committedGeneration
    batch.generation
  let removed :=
    batch.removedUris.foldl Next.remove
      ⟨store.documents, store.rejectedDocuments⟩
  let replaced ← batch.replacements.foldlM Next.replace removed
  pure (batch.rejectedUris.foldl Next.reject replaced)

/- Take over new contents, and report them. -/
def commit
    (generation : Nat)
    (contents : Except StoreError Next) :
    Except StoreError CommitReceipt × MemoryStore :=
  match contents with
  | Except.error error => (Except.error error, store)
  | Except.ok next =>
      (Except.ok
        ⟨generation, next.rejectedDocuments.toList⟩,
        ⟨next.documents, next.rejectedDocuments, generation⟩)

def applyBatch
    (batch : RefreshBatch) :
    Except StoreError CommitReceipt × MemoryStore :=
  store.commit batch.generation (store.nextContents batch)

/- The loop of `replace_all`. -/
def insertChecked
    (documents : DocumentMap)
    (document : DocumentSymbols) :
    Except StoreError DocumentMap := do
  ensureSymbolUris document
  pure (documents.insert document)

def replacedContents
    (batch : FullCatalogBatch) : Except StoreError Next := do
  ensureNewerGeneration store.committedGeneration
    batch.generation
  let documents ←
    batch.documents.foldlM insertChecked DocumentMap.empty
  pure ⟨documents, OrderedSet.ofList batch.rejectedUris⟩

def replaceAll
    (batch : FullCatalogBatch) :
    Except StoreError CommitReceipt × MemoryStore :=
  store.commit batch.generation (store.replacedContents batch)

----------
-- Queries
----------

section Queries

variable (unicode : Unicode)

def search
    (store : MemoryStore)
    (query : SymbolQuery) : SymbolSearchResult where
  items :=
    rankSymbols unicode query
      (store.documents.values.flatMap (·.symbols))
  servedGeneration := store.committedGeneration

/- The key that exports are sorted by. -/
def exportSortKey (item : WorkspaceExport) :
    String ×ₗ String ×ₗ Nat :=
  toLex (foldForSearch unicode item.exportedName,
    toLex (item.uri, item.ordinal))

def sortExports (items : List WorkspaceExport) :
    List WorkspaceExport :=
  items.insertionSort fun left right =>
    exportSortKey unicode left ≤ exportSortKey unicode right

/- The export's name starts with the query. -/
def exportMatches
    (query : ExportQuery)
    (item : WorkspaceExport) : Bool :=
  startsWith (foldForSearch unicode item.exportedName)
    query.folded

def searchExports
    (store : MemoryStore)
    (query : ExportQuery) : ExportSearchResult where
  items :=
    (sortExports unicode
      ((store.documents.values.flatMap (·.exports)).filter
        (exportMatches unicode query))).take query.limit
  servedGeneration := store.committedGeneration

end Queries

def maxReferenceAliasNames : Nat := 1024

/- The names that a binding makes aliases of each other. -/
def bindingEdge (binding : ReferenceBinding) :
    String × String :=
  (binding.importedName, binding.localName)

/- The bindings of the documents that the roots admit. -/
def admittedBindings
    (declarationUri : String)
    (admittedUriRoots : List String) :
    List ReferenceBinding :=
  (store.documents.values.filter fun document =>
    referenceUriAdmitted document.uri declarationUri
      admittedUriRoots).flatMap (·.bindings)

/-
  The loop over the names; `none` is the unsupported answer.
  The set grows in every turn, so the fuel is not used up.
-/
def referenceNames
    (exportedName referenceExportName declarationUri : String)
    (admittedUriRoots : List String) :
    Option (OrderedSet String) :=
  Components.settle maxReferenceAliasNames
    ((store.admittedBindings declarationUri
      admittedUriRoots).map bindingEdge)
    (maxReferenceAliasNames + 1)
    (OrderedSet.ofList [exportedName, referenceExportName])

end MemoryStore

end ArktsServer
