import ArktsServer.Core.ParsedDocuments
import ArktsServer.Store.CatalogReplace

/-
  No store rejects a batch because of a document that the
  parser accepted: whether a refresh, a catalog or a catalog
  build succeeds depends on its generation, on the URIs of
  its documents and on the documents that no parser made.

  Key definitions include:
    * `Parsed`, `OthersPass`

  Correctness is proven by:
    * `Parsed.storable`
    * `sqlite_applyBatch_iff`, `sqlite_replaceAll_iff`
    * `buildCatalog_iff`, `buildCatalogStream_iff`
    * `parsed_documents_accepted`
-/

namespace ArktsServer

namespace Store

open Chunking

----------
-- Parsed Documents
----------

/- What the parser made of a document of less than 4 GiB. -/
def Parsed
    (unicode : Unicode)
    (symbols : DocumentSymbols) : Prop :=
  ∃ document,
    byteLengthOf document.text < 2 ^ 32 ∧
      parseDocumentSymbols unicode document = some symbols

/- What the memory store asks of a document. -/
def Valid (document : DocumentSymbols) : Prop :=
  ensureSymbolUris document = Except.ok ()

variable {unicode : Unicode}
variable {symbols : DocumentSymbols}

theorem Parsed.storable
    (hParsed : Parsed unicode symbols) :
    Storable symbols := by
  rcases hParsed with ⟨document, hBytes, hParse⟩
  rcases parseDocumentSymbols_valid hBytes hParse with
    ⟨hValid, hOrdinals⟩
  exact ⟨hValid, hOrdinals⟩

theorem Parsed.valid
    (hParsed : Parsed unicode symbols) :
    Valid symbols :=
  hParsed.storable.valid

/- The documents that no parser made pass a check. -/
def OthersPass
    (unicode : Unicode)
    (passes : DocumentSymbols → Prop)
    (documents : List DocumentSymbols) : Prop :=
  ∀ document ∈ documents,
    ¬ Parsed unicode document → passes document

variable {passes : DocumentSymbols → Prop}

/- The others are all that a check can fail on. -/
theorem othersPass_iff
    (hPasses :
      ∀ document,
        Parsed unicode document → passes document)
    (documents : List DocumentSymbols) :
    OthersPass unicode passes documents ↔
      ∀ document ∈ documents, passes document := by
  constructor
  · intro hOthers document hDocument
    by_cases hParsed : Parsed unicode document
    · exact hPasses document hParsed
    · exact hOthers document hDocument hParsed
  · intro hAll document hDocument _
    exact hAll document hDocument

theorem othersPass_of_parsed
    {documents : List DocumentSymbols}
    (hParsed :
      ∀ document ∈ documents, Parsed unicode document) :
    OthersPass unicode passes documents := by
  intro document hDocument hOther
  exact absurd (hParsed document hDocument) hOther

/- Two computations in a row go through when both do. -/
theorem exists_bind_ok
    {Value Result : Type}
    {first : Except StoreError Value}
    {next : Value → Except StoreError Result} :
    (∃ result, (first >>= next) = Except.ok result) ↔
      ∃ value,
        first = Except.ok value ∧
          ∃ result, next value = Except.ok result := by
  constructor
  · rintro ⟨result, hResult⟩
    rcases bind_eq_ok.mp hResult with ⟨value, hValue, hNext⟩
    exact ⟨value, hValue, result, hNext⟩
  · rintro ⟨value, hValue, result, hNext⟩
    exact ⟨result, bind_eq_ok.mpr ⟨value, hValue, hNext⟩⟩

/- A loop goes through when every one of its rounds does. -/
theorem foldlM_ok_iff
    {Item State : Type}
    (step : State → Item → Except StoreError State)
    {passes : Item → Prop}
    (hStep :
      ∀ state item,
        (∃ next, step state item = Except.ok next) ↔
          passes item)
    (items : List Item)
    (state : State) :
    (∃ last, items.foldlM step state = Except.ok last) ↔
      ∀ item ∈ items, passes item := by
  induction items generalizing state with
  | nil =>
    constructor
    · intro _ item hItem
      cases hItem
    · intro _
      exact ⟨state, rfl⟩
  | cons item items ih =>
    rw [List.foldlM_cons, List.forall_mem_cons]
    constructor
    · rintro ⟨last, hLast⟩
      rcases bind_eq_ok.mp hLast with ⟨next, hNext, hRest⟩
      exact
        ⟨(hStep state item).mp ⟨next, hNext⟩,
          (ih next).mp ⟨last, hRest⟩⟩
    · rintro ⟨hItem, hItems⟩
      rcases (hStep state item).mpr hItem with
        ⟨next, hNext⟩
      rcases (ih next).mpr hItems with ⟨last, hLast⟩
      exact ⟨last, bind_eq_ok.mpr ⟨next, hNext, hLast⟩⟩

----------
-- The Memory Store
----------

section Memory

open MemoryStore

variable {unicode : Unicode}

theorem commit_ok_iff
    (store : MemoryStore)
    (generation : Nat)
    (contents : Except StoreError Next) :
    (∃ receipt,
        (store.commit generation contents).1
          = Except.ok receipt) ↔
      ∃ next, contents = Except.ok next := by
  cases contents with
  | error error =>
    constructor
    · rintro ⟨_, hReceipt⟩
      cases hReceipt
    · rintro ⟨_, hNext⟩
      cases hNext
  | ok next => exact ⟨fun _ => ⟨next, rfl⟩, fun _ => ⟨_, rfl⟩⟩

/- A check in front of a step that always succeeds. -/
theorem valid_bind_iff
    {State : Type}
    {document : DocumentSymbols}
    {last : State} :
    (∃ next,
        (ensureSymbolUris document >>= fun _ => pure last)
          = Except.ok next) ↔
      Valid document := by
  constructor
  · rintro ⟨next, hNext⟩
    rcases bind_eq_ok.mp hNext with ⟨_, hValid, _⟩
    exact hValid
  · intro hValid
    exact ⟨last, bind_eq_ok.mpr ⟨(), hValid, rfl⟩⟩

/- A loop behind the check of the generation. -/
theorem checked_loop_iff
    {Last Result : Type}
    {committed generation : Nat}
    {loop : Except StoreError Last}
    {result : Last → Result}
    {Allowed : Prop}
    (hLoop : (∃ last, loop = Except.ok last) ↔ Allowed) :
    (∃ next,
        (ensureNewerGeneration committed generation >>=
            fun _ => loop >>= fun last => pure (result last)) =
          Except.ok next) ↔
      committed < generation ∧ Allowed := by
  constructor
  · rintro ⟨next, hNext⟩
    rcases bind_eq_ok.mp hNext with ⟨_, hNewer, hNext⟩
    rcases bind_eq_ok.mp hNext with ⟨last, hLast, _⟩
    exact
      ⟨ensureNewerGeneration_eq_ok.mp hNewer,
        hLoop.mp ⟨last, hLast⟩⟩
  · rintro ⟨hNewer, hAllowed⟩
    rcases hLoop.mpr hAllowed with ⟨last, hLast⟩
    refine
      exists_bind_ok.mpr
        ⟨(), ensureNewerGeneration_eq_ok.mpr hNewer, ?_⟩
    exact exists_bind_ok.mpr ⟨last, hLast, _, rfl⟩

theorem memory_applyBatch_iff
    (store : MemoryStore)
    (batch : RefreshBatch) :
    (∃ receipt,
        (store.applyBatch batch).1 = Except.ok receipt) ↔
      store.committedGeneration < batch.generation ∧
        OthersPass unicode Valid batch.replacements := by
  rw [othersPass_iff fun _ => Parsed.valid]
  unfold MemoryStore.applyBatch
  rw [commit_ok_iff]
  exact
    checked_loop_iff
      (foldlM_ok_iff Next.replace
        (fun _ _ => valid_bind_iff) batch.replacements _)

theorem memory_replaceAll_iff
    (store : MemoryStore)
    (batch : FullCatalogBatch) :
    (∃ receipt,
        (store.replaceAll batch).1 = Except.ok receipt) ↔
      store.committedGeneration < batch.generation ∧
        OthersPass unicode Valid batch.documents := by
  rw [othersPass_iff fun _ => Parsed.valid]
  unfold MemoryStore.replaceAll
  rw [commit_ok_iff]
  exact
    checked_loop_iff
      (foldlM_ok_iff insertChecked
        (fun _ _ => valid_bind_iff) batch.documents _)

end Memory

----------
-- The SQLite Store
----------

section Sqlite

variable (unicode : Unicode)

theorem replaceDocument_ok_iff
    (generation : Nat)
    (database : CatalogDatabase)
    (replacement : DocumentSymbols) :
    (∃ next,
        replaceDocument unicode generation database
          replacement = Except.ok next) ↔
      ExportsDistinct replacement := by
  constructor
  · rintro ⟨next, hNext⟩
    exact (replaceDocument_eq unicode hNext).1
  · intro hDistinct
    exact
      ⟨_, bind_eq_ok.mpr
        ⟨_, (insertDocument_iff unicode
          (lacks_deleteDocument _ _)).mpr ⟨hDistinct, rfl⟩, rfl⟩⟩

theorem sqlite_applyBatch_iff
    (database : CatalogDatabase)
    (batch : RefreshBatch) :
    (∃ committed,
        applyBatch unicode batch database
          = Except.ok committed) ↔
      database.committedGeneration < batch.generation ∧
        batch.generation < 2 ^ 63 ∧
        OthersPass unicode Storable batch.replacements := by
  rw [othersPass_iff fun _ => Parsed.storable]
  have hLoop :=
    foldlM_ok_iff
      (replaceDocument unicode batch.generation)
      (replaceDocument_ok_iff unicode batch.generation)
      batch.replacements
      (batch.removedUris.foldl removeDocument database)
  unfold applyBatch batchTransaction
  constructor
  · rintro ⟨committed, hApply⟩
    rcases bind_eq_ok.mp hApply with ⟨_, hNewer, hApply⟩
    rcases bind_eq_ok.mp hApply with ⟨_, hBound, hApply⟩
    rcases bind_eq_ok.mp hApply with ⟨_, hValid, hApply⟩
    rcases bind_eq_ok.mp hApply with ⟨_, _, hApply⟩
    rcases bind_eq_ok.mp hApply with ⟨replaced, hReplaced, _⟩
    have hDistinct := hLoop.mp ⟨replaced, hReplaced⟩
    refine
      ⟨ensureNewerGeneration_eq_ok.mp hNewer,
        (sqliteGeneration_eq_ok.mp hBound).1, ?_⟩
    intro document hDocument
    exact
      ⟨forM_eq_ok.mp hValid document hDocument,
        hDistinct document hDocument⟩
  · rintro ⟨hNewer, hBound, hStorable⟩
    have hChecked :
        ensureNewerGeneration database.committedGeneration
          batch.generation = Except.ok () :=
      ensureNewerGeneration_eq_ok.mpr hNewer
    rcases
        hLoop.mpr fun document hDocument =>
          (hStorable document hDocument).exports with
      ⟨replaced, hReplaced⟩
    refine exists_bind_ok.mpr ⟨(), hChecked, ?_⟩
    refine
      exists_bind_ok.mpr
        ⟨_, sqliteGeneration_eq_ok.mpr ⟨hBound, rfl⟩, ?_⟩
    refine
      exists_bind_ok.mpr
        ⟨(), forM_eq_ok.mpr fun document hDocument =>
          (hStorable document hDocument).valid, ?_⟩
    refine exists_bind_ok.mpr ⟨(), hChecked, ?_⟩
    exact exists_bind_ok.mpr ⟨replaced, hReplaced, _, rfl⟩

theorem sqlite_replaceAll_iff
    (database : CatalogDatabase)
    (batch : FullCatalogBatch) :
    (∃ committed,
        replaceAll unicode batch database
          = Except.ok committed) ↔
      database.committedGeneration < batch.generation ∧
        batch.generation < 2 ^ 63 ∧
        (batch.documents.map (·.uri)).Nodup ∧
        OthersPass unicode Storable batch.documents := by
  rw [othersPass_iff fun _ => Parsed.storable]
  constructor
  · rintro ⟨⟨after, receipt⟩, hReplace⟩
    rcases replaceAll_stages unicode hReplace with
      ⟨hNewer, hValid, hDistinct, hExports, _, _⟩
    have hBound : batch.generation < 2 ^ 63 := by
      rcases bind_eq_ok.mp hReplace with ⟨_, _, hReplace⟩
      rcases bind_eq_ok.mp hReplace with ⟨_, hSql, _⟩
      exact (sqliteGeneration_eq_ok.mp hSql).1
    refine ⟨hNewer, hBound, hDistinct, ?_⟩
    intro document hDocument
    exact ⟨hValid document hDocument, hExports document hDocument⟩
  · rintro ⟨hNewer, hBound, hDistinct, hStorable⟩
    have hChecked :
        ensureNewerGeneration database.committedGeneration
          batch.generation = Except.ok () :=
      ensureNewerGeneration_eq_ok.mpr hNewer
    have hNew :
        Insertable CatalogTables.empty batch.documents :=
      ⟨fun _ _ => CatalogTables.lacks_empty _, hDistinct⟩
    unfold replaceAll
    refine exists_bind_ok.mpr ⟨(), hChecked, ?_⟩
    refine
      exists_bind_ok.mpr
        ⟨_, sqliteGeneration_eq_ok.mpr ⟨hBound, rfl⟩, ?_⟩
    refine
      exists_bind_ok.mpr
        ⟨(), forM_eq_ok.mpr fun document hDocument =>
          (hStorable document hDocument).valid, ?_⟩
    refine exists_bind_ok.mpr ⟨(), hChecked, ?_⟩
    have hInsert :=
      (insertBatch_iff unicode hNew).mpr
        ⟨hBound, fun document hDocument =>
          (hStorable document hDocument).exports, rfl⟩
    exact exists_bind_ok.mpr ⟨_, hInsert, _, rfl⟩

end Sqlite

theorem orRollback_ok_iff
    {database : CatalogDatabase}
    {result :
      Except StoreError (CatalogDatabase × CommitReceipt)} :
    (∃ receipt,
        (orRollback database result).1 = Except.ok receipt) ↔
      ∃ committed, result = Except.ok committed := by
  constructor
  · rintro ⟨receipt, hReceipt⟩
    exact ⟨_, orRollback_ok hReceipt⟩
  · rintro ⟨⟨committed, receipt⟩, rfl⟩
    exact ⟨receipt, rfl⟩

----------
-- Catalog Builds
----------

section Builds

variable (unicode : Unicode)
variable {surroundings : Surroundings}

variable {documents : List DocumentSymbols}
variable {generation : Nat}

/- When nothing cancels it, a build that agrees goes through. -/
theorem Agrees.ok_iff
    {rejected : List String}
    {built : Except StoreError CatalogDatabase}
    (hAgrees :
      Agrees surroundings generation rejected
        (insertOneByOne unicode generation documents) built)
    (hCooperative : surroundings.Cooperative)
    (hSorted : documents.Pairwise (·.uri < ·.uri)) :
    (∃ database, built = Except.ok database) ↔
      generation < 2 ^ 63 ∧
        ∀ document ∈ documents, Storable document := by
  constructor
  · rintro ⟨database, hBuilt⟩
    rcases hAgrees.sound database hBuilt with
      ⟨tables, hInsert, _⟩
    rcases (insertOneByOne_iff unicode hSorted).mp hInsert with
      ⟨hBound, hStorable, _⟩
    exact ⟨hBound, hStorable⟩
  · rintro ⟨hBound, hStorable⟩
    exact
      hAgrees.complete hCooperative _
        ((insertOneByOne_iff unicode hSorted).mpr
          ⟨hBound, hStorable, rfl⟩)

theorem sortByUri_sorted
    (hDistinct : (documents.map (·.uri)).Nodup) :
    (sortByUri documents).Pairwise (·.uri < ·.uri) := by
  have hLe :
      (sortByUri documents).Pairwise
        fun left right => left.uri ≤ right.uri :=
    List.pairwise_insertionSort _ documents
  have hPerm : (sortByUri documents).Perm documents :=
    List.perm_insertionSort _ documents
  have hNodup : ((sortByUri documents).map (·.uri)).Nodup :=
    (hPerm.map _).nodup_iff.mpr hDistinct
  have hNe :
      (sortByUri documents).Pairwise
        fun left right => left.uri ≠ right.uri :=
    List.pairwise_map.mp hNodup
  exact hLe.imp₂ (fun _ _ hLe hNe => lt_of_le_of_ne hLe hNe) hNe

/- A build sorts its documents, whatever their order is. -/
theorem buildCatalog_sortByUri
    (rejected : List String)
    (hDistinct : (documents.map (·.uri)).Nodup) :
    buildCatalog surroundings unicode
        ⟨generation, sortByUri documents, rejected⟩ =
      buildCatalog surroundings unicode
        ⟨generation, documents, rejected⟩ := by
  unfold buildCatalog
  rw [sortByUri_of_sorted (sortByUri_sorted hDistinct)]

theorem buildCatalog_iff
    (hCooperative : surroundings.Cooperative)
    (batch : FullCatalogBatch)
    (hDistinct : (batch.documents.map (·.uri)).Nodup) :
    (∃ database,
        buildCatalog surroundings unicode batch
          = Except.ok database) ↔
      batch.generation < 2 ^ 63 ∧
        OthersPass unicode Storable batch.documents := by
  have hSorted := sortByUri_sorted hDistinct
  have hBuild :=
    (@buildCatalog_agrees unicode surroundings
      batch.generation _ batch.rejectedUris hSorted).ok_iff
        unicode hCooperative hSorted
  rw [buildCatalog_sortByUri unicode _ hDistinct] at hBuild
  rw [othersPass_iff fun _ => Parsed.storable]
  refine hBuild.trans (and_congr_right fun _ => ?_)
  have hPerm : (sortByUri batch.documents).Perm batch.documents :=
    List.perm_insertionSort _ _
  exact forall_congr' fun document => by rw [hPerm.mem_iff]

theorem buildCatalogStream_iff
    (hCooperative : surroundings.Cooperative)
    (generation : Nat)
    {events : List CatalogInput}
    (hOpen : CatalogInput.complete ∉ events)
    (hSorted :
      (documentsOf events).Pairwise (·.uri < ·.uri)) :
    (∃ database,
        buildCatalogStream surroundings unicode generation
          (completeStream events) = Except.ok database) ↔
      generation < 2 ^ 63 ∧
        OthersPass unicode Storable (documentsOf events) := by
  rw [othersPass_iff fun _ => Parsed.storable]
  exact
    (buildCatalogStream_agrees unicode hOpen hSorted).ok_iff
      unicode hCooperative hSorted

end Builds

----------
-- Acceptance
----------

/- A refresh succeeds when its batch is applied. -/
theorem refresh_ok_iff
    {applyBatch :
      RefreshBatch → Except StoreError CommitReceipt}
    {generation : Nat}
    {changedDocuments : List Document}
    {removedUris : List String} :
    (∃ report,
        WorkspaceIndex.refresh unicode applyBatch generation
          changedDocuments removedUris
            = Except.ok report) ↔
      ∃ receipt,
        applyBatch
          (refreshBatch unicode generation changedDocuments
            removedUris) = Except.ok receipt := by
  unfold WorkspaceIndex.refresh
  constructor
  · rintro ⟨report, hReport⟩
    rcases SymbolStore.map_eq_ok hReport with
      ⟨receipt, hReceipt, _⟩
    exact ⟨receipt, hReceipt⟩
  · rintro ⟨receipt, hReceipt⟩
    exact ⟨_, congrArg (Except.map _) hReceipt⟩

/- The batch of a refresh holds what the parser made. -/
theorem parsed_refreshBatch
    {unicode : Unicode}
    {generation : Nat}
    {changedDocuments : List Document}
    {removedUris : List String}
    (hBytes :
      ∀ document ∈ changedDocuments,
        byteLengthOf document.text < 2 ^ 32) :
    ∀ replacement ∈
        (refreshBatch unicode generation changedDocuments
          removedUris).replacements,
      Parsed unicode replacement := by
  intro replacement hReplacement
  rcases List.mem_filterMap.mp hReplacement with
    ⟨document, hDocument, hParse⟩
  exact ⟨document, hBytes document hDocument, hParse⟩

/- Whatever its files are, a refresh is only ever too old. -/
theorem refresh_accepted
    {generation : Nat}
    {changedDocuments : List Document}
    {removedUris : List String}
    (hBytes :
      ∀ document ∈ changedDocuments,
        byteLengthOf document.text < 2 ^ 32)
    (store : MemoryStore)
    (database : CatalogDatabase) :
    ((∃ report,
        WorkspaceIndex.refresh unicode
          (fun batch => (store.applyBatch batch).1)
          generation changedDocuments removedUris
            = Except.ok report) ↔
      store.committedGeneration < generation) ∧
      ((∃ report,
          WorkspaceIndex.refresh unicode
            (fun batch =>
              (orRollback database
                (applyBatch unicode batch database)).1)
            generation changedDocuments removedUris
              = Except.ok report) ↔
        database.committedGeneration < generation ∧
          generation < 2 ^ 63) := by
  have hParsed :=
    @parsed_refreshBatch unicode generation changedDocuments
      removedUris hBytes
  constructor
  · rw [refresh_ok_iff, memory_applyBatch_iff]
    exact and_iff_left (othersPass_of_parsed hParsed)
  · rw [refresh_ok_iff, orRollback_ok_iff,
      sqlite_applyBatch_iff]
    refine and_congr_right fun _ => ?_
    exact and_iff_left (othersPass_of_parsed hParsed)

/-
  Every document that the parser makes passes the checks of
  both stores.  A batch can fail on its generation, on two
  documents of one URI, or on a document that no parser made,
  and a refresh of files can fail on its generation only.
-/
theorem parsed_documents_accepted (unicode : Unicode) :
    (∀ symbols,
      Parsed unicode symbols →
        ensureSymbolUris symbols = Except.ok () ∧
          validateReplacement symbols = Except.ok () ∧
          ExportsDistinct symbols) ∧
      (∀ store batch,
        (∃ receipt,
            (MemoryStore.applyBatch store batch).1
              = Except.ok receipt) ↔
          store.committedGeneration < batch.generation ∧
            OthersPass unicode Valid batch.replacements) ∧
      (∀ store batch,
        (∃ receipt,
            (MemoryStore.replaceAll store batch).1
              = Except.ok receipt) ↔
          store.committedGeneration < batch.generation ∧
            OthersPass unicode Valid batch.documents) ∧
      (∀ database batch,
        (∃ committed,
            applyBatch unicode batch database
              = Except.ok committed) ↔
          database.committedGeneration < batch.generation ∧
            batch.generation < 2 ^ 63 ∧
            OthersPass unicode Storable
              batch.replacements) ∧
      (∀ database batch,
        (∃ committed,
            replaceAll unicode batch database
              = Except.ok committed) ↔
          database.committedGeneration < batch.generation ∧
            batch.generation < 2 ^ 63 ∧
            (batch.documents.map (·.uri)).Nodup ∧
            OthersPass unicode Storable batch.documents) ∧
      (∀ surroundings : Surroundings,
        surroundings.Cooperative →
          (∀ batch : FullCatalogBatch,
            (batch.documents.map (·.uri)).Nodup →
              ((∃ database,
                  buildCatalog surroundings unicode batch
                    = Except.ok database) ↔
                batch.generation < 2 ^ 63 ∧
                  OthersPass unicode Storable
                    batch.documents)) ∧
          ∀ generation events,
            CatalogInput.complete ∉ events →
            (documentsOf events).Pairwise (·.uri < ·.uri) →
              ((∃ database,
                  buildCatalogStream surroundings unicode
                      generation (completeStream events)
                    = Except.ok database) ↔
                generation < 2 ^ 63 ∧
                  OthersPass unicode Storable
                    (documentsOf events))) ∧
      ∀ generation changedDocuments removedUris,
        (∀ document ∈ changedDocuments,
          byteLengthOf document.text < 2 ^ 32) →
        ∀ store database,
          ((∃ report,
              WorkspaceIndex.refresh unicode
                (fun batch =>
                  (MemoryStore.applyBatch store batch).1)
                generation changedDocuments removedUris
                  = Except.ok report) ↔
            store.committedGeneration < generation) ∧
            ((∃ report,
                WorkspaceIndex.refresh unicode
                  (fun batch =>
                    (orRollback database
                      (applyBatch unicode batch
                        database)).1)
                  generation changedDocuments removedUris
                    = Except.ok report) ↔
              database.committedGeneration < generation ∧
                generation < 2 ^ 63) := by
  refine ⟨?_, ?_, ?_, ?_, ?_, ?_, ?_⟩
  · intro symbols hParsed
    exact
      ⟨hParsed.valid, hParsed.valid, hParsed.storable.exports⟩
  · exact fun store batch => memory_applyBatch_iff store batch
  · exact fun store batch => memory_replaceAll_iff store batch
  · exact sqlite_applyBatch_iff unicode
  · exact sqlite_replaceAll_iff unicode
  · intro surroundings hCooperative
    refine ⟨?_, ?_⟩
    · exact buildCatalog_iff unicode hCooperative
    · intro generation events hOpen hSorted
      exact
        buildCatalogStream_iff unicode hCooperative generation
          hOpen hSorted
  · intro generation changedDocuments removedUris hBytes
    exact refresh_accepted hBytes

end Store

end ArktsServer
