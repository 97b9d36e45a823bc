import ArktsServer.Core.MemoryStore
import ArktsServer.Core.SymbolStore
import ArktsServer.Store.WriterAgreement

/-
  `SqliteStore::replace_all`, and both stores side by side:
  in memory and in SQLite, batches and full catalogs keep
  the indexed and the rejected documents apart, move the
  generation forward, and change nothing when they fail.

  Key definitions include:
    * `Store.replaceAll`
    * `Store.sqliteStore`, `Store.memoryStore`

  Correctness is proven by:
    * `Store.sqliteStore_lawful`, `Store.memoryStore_lawful`
    * `Store.stores_sound`
-/

namespace ArktsServer

namespace Store

open Chunking

----------
-- Full Catalogs
----------

section Catalogs

variable (unicode : Unicode)

/-
  The transaction drops and recreates an index, clears all
  tables and inserts the documents as a batch of a build
  does.  The checks in front of it see the same database.
-/
def replaceAll
    (batch : FullCatalogBatch)
    (database : CatalogDatabase) :
    Except StoreError (CatalogDatabase × CommitReceipt) := do
  ensureNewerGeneration database.committedGeneration
    batch.generation
  let generation ← sqliteGeneration batch.generation
  batch.documents.forM validateReplacement
  ensureNewerGeneration database.committedGeneration
    batch.generation
  let tables ←
    insertBatch unicode batch.generation batch.documents
      CatalogTables.empty
  let committed : CatalogDatabase :=
    { tables := tables
      rejected := insertRowsIgnoring id batch.rejectedUris []
      committedGeneration := generation }
  pure
    (committed,
      ⟨batch.generation, readRejectedDocuments committed⟩)

/- A transaction that is dropped leaves nothing behind. -/
def orRollback
    (database : CatalogDatabase)
    (result :
      Except StoreError (CatalogDatabase × CommitReceipt)) :
    Except StoreError CommitReceipt × CatalogDatabase :=
  match result with
  | Except.error error => (Except.error error, database)
  | Except.ok (committed, receipt) =>
      (Except.ok receipt, committed)

def indexedUris (database : CatalogDatabase) : List String :=
  database.tables.documents.map (·.uri)

def sqliteStore : SymbolStore CatalogDatabase where
  applyBatch database batch :=
    orRollback database (applyBatch unicode batch database)
  replaceAll database batch :=
    orRollback database (replaceAll unicode batch database)
  indexedUris := indexedUris
  metadata database :=
    ⟨database.committedGeneration,
      readRejectedDocuments database⟩

end Catalogs

def memoryStore : SymbolStore MemoryStore where
  applyBatch := MemoryStore.applyBatch
  replaceAll := MemoryStore.replaceAll
  indexedUris store := store.documents.keys
  metadata := MemoryStore.metadata

theorem ensureNewerGeneration_eq_ok
    {current next : Nat}
    {result : Unit} :
    ensureNewerGeneration current next = Except.ok result ↔
      current < next := by
  unfold ensureNewerGeneration
  by_cases hNewer : current < next
  · simp [hNewer]
  · simp [hNewer]

----------
-- The Memory Store
----------

section Memory

open MemoryStore

variable {store : MemoryStore}

/- What the loops of `apply_batch` make of the contents. -/
theorem nextContents_spec
    {batch : RefreshBatch}
    {next : Next}
    (hNext : store.nextContents batch = Except.ok next) :
    store.committedGeneration < batch.generation ∧
      (∀ uri,
        uri ∈ next.documents.keys ↔
          uri ∉ batch.rejectedUris ∧
            (uri ∈ batch.replacements.map (·.uri) ∨
              uri ∈ store.documents.keys ∧
                uri ∉ batch.removedUris)) ∧
      ∀ uri,
        uri ∈ next.rejectedDocuments ↔
          uri ∈ batch.rejectedUris ∨
            uri ∈ store.rejectedDocuments ∧
              uri ∉ batch.removedUris ∧
                uri ∉ batch.replacements.map (·.uri) := by
  unfold nextContents at hNext
  rcases bind_eq_ok.mp hNext with ⟨_, hNewer, hNext⟩
  rcases bind_eq_ok.mp hNext with ⟨replaced, hLoop, hNext⟩
  injection hNext with hNext
  subst hNext
  have hReplace :
      ∀ (state : Next) document (next : Next),
        Next.replace state document = Except.ok next →
        next =
          ⟨state.documents.insert document,
            state.rejectedDocuments.erase document.uri⟩ := by
    intro state document next hStep
    rcases bind_eq_ok.mp hStep with ⟨_, _, hStep⟩
    injection hStep with hStep
    exact hStep.symm
  refine ⟨ensureNewerGeneration_eq_ok.mp hNewer, ?_, ?_⟩
  · intro uri
    rw [SymbolStore.foldl_removes
        (fun (next : Next) other =>
          other ∈ next.documents.keys)
        (fun _ _ _ => DocumentMap.mem_keys_remove),
      SymbolStore.foldlM_adds
        (fun (next : Next) other =>
          other ∈ next.documents.keys)
        ?_ hLoop uri,
      SymbolStore.foldl_removes
        (fun (next : Next) other =>
          other ∈ next.documents.keys)
        (fun _ _ _ => DocumentMap.mem_keys_remove)]
    · tauto
    · intro state document next other hStep
      rw [hReplace state document next hStep]
      exact DocumentMap.mem_keys_insert
  · intro uri
    rw [SymbolStore.foldl_adds
        (fun (next : Next) other =>
          other ∈ next.rejectedDocuments)
        ?_,
      SymbolStore.foldlM_removes
        (fun (next : Next) other =>
          other ∈ next.rejectedDocuments)
        ?_ hLoop uri,
      SymbolStore.foldl_removes
        (fun (next : Next) other =>
          other ∈ next.rejectedDocuments)
        (fun _ _ _ => OrderedSet.mem_erase)]
    · tauto
    · intro state document next other hStep
      rw [hReplace state document next hStep]
      exact OrderedSet.mem_erase
    · intro state rejected other
      exact OrderedSet.mem_insert.trans or_comm

theorem replacedContents_spec
    {batch : FullCatalogBatch}
    {next : Next}
    (hNext : store.replacedContents batch = Except.ok next) :
    store.committedGeneration < batch.generation ∧
      (∀ uri,
        uri ∈ next.documents.keys ↔
          uri ∈ batch.documents.map (·.uri)) ∧
      ∀ uri,
        uri ∈ next.rejectedDocuments ↔
          uri ∈ batch.rejectedUris := by
  unfold replacedContents at hNext
  rcases bind_eq_ok.mp hNext with ⟨_, hNewer, hNext⟩
  rcases bind_eq_ok.mp hNext with ⟨documents, hLoop, hNext⟩
  injection hNext with hNext
  subst hNext
  refine ⟨ensureNewerGeneration_eq_ok.mp hNewer, ?_, ?_⟩
  · intro uri
    rw [SymbolStore.foldlM_adds
      (fun (documents : DocumentMap) other =>
        other ∈ documents.keys)
      ?_ hLoop uri]
    · simp [DocumentMap.keys, DocumentMap.empty]
    · intro state document next other hStep
      rcases bind_eq_ok.mp hStep with ⟨_, _, hStep⟩
      injection hStep with hStep
      rw [← hStep]
      exact DocumentMap.mem_keys_insert
  · intro uri
    exact OrderedSet.mem_ofList

variable {generation : Nat}
variable {contents : Except StoreError Next}

theorem commit_error
    {error : StoreError}
    (hAnswer :
      (store.commit generation contents).1
        = Except.error error) :
    (store.commit generation contents).2 = store := by
  cases contents with
  | error other => rfl
  | ok next => cases hAnswer

theorem commit_ok
    {receipt : CommitReceipt}
    (hAnswer :
      (store.commit generation contents).1
        = Except.ok receipt) :
    ∃ next,
      contents = Except.ok next ∧
        receipt =
          ⟨generation, next.rejectedDocuments.toList⟩ ∧
        (store.commit generation contents).2 =
          ⟨next.documents, next.rejectedDocuments,
            generation⟩ := by
  cases contents with
  | error other => cases hAnswer
  | ok next =>
    injection hAnswer with hReceipt
    exact ⟨next, rfl, hReceipt.symm, rfl⟩

theorem memoryStore_lawful : memoryStore.Lawful := by
  constructor
  · exact fun _ _ _ hAnswer => commit_error hAnswer
  · intro store batch receipt hAnswer
    rcases commit_ok hAnswer with ⟨next, hNext, rfl, hAfter⟩
    refine ⟨(nextContents_spec hNext).1, ?_, rfl, ?_⟩
    · exact congrArg MemoryStore.committedGeneration hAfter
    · exact
        (congrArg
          (fun store : MemoryStore =>
            store.rejectedDocuments.toList)
          hAfter).symm
  · intro store batch receipt hAnswer uri
    rcases commit_ok hAnswer with ⟨next, hNext, _, hAfter⟩
    have hKeys := (nextContents_spec hNext).2.1 uri
    change uri ∈ (store.applyBatch batch).2.documents.keys ↔ _
    unfold MemoryStore.applyBatch
    rw [hAfter]
    exact hKeys
  · intro store batch receipt hAnswer uri
    rcases commit_ok hAnswer with ⟨next, hNext, _, hAfter⟩
    have hRejected := (nextContents_spec hNext).2.2 uri
    change
      uri ∈ (store.applyBatch batch).2.rejectedDocuments ↔ _
    unfold MemoryStore.applyBatch
    rw [hAfter]
    exact hRejected
  · exact fun _ _ _ hAnswer => commit_error hAnswer
  · intro store batch receipt hAnswer
    rcases commit_ok hAnswer with ⟨next, hNext, rfl, hAfter⟩
    refine ⟨(replacedContents_spec hNext).1, ?_, rfl, ?_⟩
    · exact congrArg MemoryStore.committedGeneration hAfter
    · exact
        (congrArg
          (fun store : MemoryStore =>
            store.rejectedDocuments.toList)
          hAfter).symm
  · intro store batch receipt hAnswer uri
    rcases commit_ok hAnswer with ⟨next, hNext, _, hAfter⟩
    have hKeys := (replacedContents_spec hNext).2.1 uri
    change uri ∈ (store.replaceAll batch).2.documents.keys ↔ _
    unfold MemoryStore.replaceAll
    rw [hAfter]
    exact hKeys
  · intro store batch receipt hAnswer uri
    rcases commit_ok hAnswer with ⟨next, hNext, _, hAfter⟩
    have hRejected := (replacedContents_spec hNext).2.2 uri
    change
      uri ∈ (store.replaceAll batch).2.rejectedDocuments ↔ _
    unfold MemoryStore.replaceAll
    rw [hAfter]
    exact hRejected

end Memory

----------
-- The SQLite Store
----------

section Sqlite

theorem lacks_deleteDocument
    (uri : String)
    (tables : CatalogTables) :
    (deleteDocument uri tables).Lacks uri := by
  have hOther :
      ∀ {Row : Type} (uriOf : Row → String)
        (rows : List Row),
        ∀ row ∈ rows.filter (uriOf · ≠ uri),
          uriOf row ≠ uri := by
    intro Row uriOf rows row hRow
    exact of_decide_eq_true (List.mem_filter.mp hRow).2
  constructor <;> exact hOther _ _

@[simp] theorem mem_deleteDocument
    {uri other : String}
    {tables : CatalogTables} :
    other ∈ (deleteDocument uri tables).documents.map (·.uri)
      ↔ other ∈ tables.documents.map (·.uri) ∧
        other ≠ uri := by
  unfold deleteDocument
  simp only [List.mem_map, List.mem_filter, ne_eq,
    decide_eq_true_eq]
  constructor
  · rintro ⟨row, ⟨hRow, hOther⟩, rfl⟩
    exact ⟨⟨row, hRow, rfl⟩, hOther⟩
  · rintro ⟨⟨row, hRow, rfl⟩, hOther⟩
    exact ⟨row, ⟨hRow, hOther⟩, rfl⟩

theorem mem_rejected_filter
    {uri other : String}
    {rejected : List String} :
    other ∈ rejected.filter (· ≠ uri) ↔
      other ∈ rejected ∧ other ≠ uri := by
  simp

theorem mem_insertRowsIgnoring
    {rows table : List String}
    {row : String} :
    row ∈ insertRowsIgnoring id rows table ↔
      row ∈ table ∨ row ∈ rows := by
  rcases insertRowsIgnoring_id rows table with
    ⟨added, hTable, _, hMem⟩
  rw [hTable, List.mem_append, hMem]
  tauto

variable {database : CatalogDatabase}

theorem mem_readRejectedDocuments
    {uri : String} :
    uri ∈ readRejectedDocuments database ↔
      uri ∈ database.rejected :=
  OrderedSet.mem_ofList

variable (unicode : Unicode)
variable {generation : Nat}
variable {database next : CatalogDatabase}
variable {replacement : DocumentSymbols}

/- A replacement that succeeds adds the document's rows. -/
theorem replaceDocument_eq
    (hReplace :
      replaceDocument unicode generation database replacement
        = Except.ok next) :
    ExportsDistinct replacement ∧
      next =
        { database with
          tables :=
            (deleteDocument replacement.uri
              database.tables).append
              (documentTables unicode generation replacement)
          rejected :=
            database.rejected.filter (· ≠ replacement.uri) } := by
  rcases bind_eq_ok.mp hReplace with
    ⟨tables, hInsert, hNext⟩
  injection hNext with hNext
  rcases
    (insertDocument_iff unicode
      (lacks_deleteDocument _ _)).mp hInsert with
    ⟨hDistinct, hTables⟩
  rw [hTables] at hNext
  exact ⟨hDistinct, hNext.symm⟩

variable {receipt : CommitReceipt}
variable {database after : CatalogDatabase}
variable {batch : RefreshBatch}

/- The stages of a batch that is applied. -/
theorem applyBatch_stages
    (hApply :
      applyBatch unicode batch database
        = Except.ok (after, receipt)) :
    database.committedGeneration < batch.generation ∧
      (∀ replacement ∈ batch.replacements,
        validateReplacement replacement = Except.ok ()) ∧
      ∃ replaced,
        batch.replacements.foldlM
            (replaceDocument unicode batch.generation)
            (batch.removedUris.foldl removeDocument database)
          = Except.ok replaced ∧
        after =
          { batch.rejectedUris.foldl rejectDocument replaced with
            committedGeneration := batch.generation } ∧
        receipt =
          ⟨batch.generation, readRejectedDocuments after⟩ := by
  rcases bind_eq_ok.mp hApply with ⟨_, hNewer, hApply⟩
  rcases bind_eq_ok.mp hApply with ⟨_, _, hApply⟩
  rcases bind_eq_ok.mp hApply with ⟨_, hValid, hApply⟩
  rcases bind_eq_ok.mp hApply with ⟨_, _, hApply⟩
  rcases bind_eq_ok.mp hApply with ⟨replaced, hLoop, hApply⟩
  injection hApply with hApply
  cases hApply
  exact
    ⟨ensureNewerGeneration_eq_ok.mp hNewer,
      forM_eq_ok.mp hValid, replaced, hLoop, rfl, rfl⟩

theorem mem_indexed_replace
    {other : String}
    (hReplace :
      replaceDocument unicode generation database replacement
        = Except.ok next) :
    other ∈ indexedUris next ↔
      other ∈ indexedUris database ∨
        other = replacement.uri := by
  rcases replaceDocument_eq unicode hReplace with ⟨_, rfl⟩
  unfold indexedUris CatalogTables.append
  rw [List.map_append, List.mem_append, mem_deleteDocument]
  have hOwn :
      (documentTables unicode generation
        replacement).documents.map (·.uri)
        = [replacement.uri] := rfl
  rw [hOwn, List.mem_singleton]
  tauto

theorem applyBatch_spec
    (hApply :
      applyBatch unicode batch database
        = Except.ok (after, receipt)) :
    (∀ uri,
      uri ∈ indexedUris after ↔
        uri ∉ batch.rejectedUris ∧
          (uri ∈ batch.replacements.map (·.uri) ∨
            uri ∈ indexedUris database ∧
              uri ∉ batch.removedUris)) ∧
      ∀ uri,
        uri ∈ after.rejected ↔
          uri ∈ batch.rejectedUris ∨
            uri ∈ database.rejected ∧
              uri ∉ batch.removedUris ∧
                uri ∉ batch.replacements.map (·.uri) := by
  rcases applyBatch_stages unicode hApply with
    ⟨_, _, replaced, hLoop, rfl, _⟩
  constructor
  · intro uri
    change
      uri
          ∈ indexedUris
            (batch.rejectedUris.foldl rejectDocument replaced) ↔ _
    rw [SymbolStore.foldl_removes
        (fun database other =>
          other ∈ indexedUris database)
        (fun _ _ _ => mem_deleteDocument),
      SymbolStore.foldlM_adds
        (fun database other =>
          other ∈ indexedUris database)
        (fun _ _ _ _ hStep =>
          mem_indexed_replace unicode hStep)
        hLoop uri,
      SymbolStore.foldl_removes
        (fun database other =>
          other ∈ indexedUris database)
        (fun _ _ _ => mem_deleteDocument)]
    tauto
  · intro uri
    change
      uri
          ∈ (batch.rejectedUris.foldl rejectDocument
            replaced).rejected ↔ _
    rw [SymbolStore.foldl_adds
        (fun (database : CatalogDatabase) other =>
          other ∈ database.rejected)
        ?_,
      SymbolStore.foldlM_removes
        (fun (database : CatalogDatabase) other =>
          other ∈ database.rejected)
        ?_ hLoop uri,
      SymbolStore.foldl_removes
        (fun (database : CatalogDatabase) other =>
          other ∈ database.rejected)
        (fun _ _ _ => mem_rejected_filter)]
    · tauto
    · intro state document next other hStep
      rcases replaceDocument_eq unicode hStep with ⟨_, rfl⟩
      exact mem_rejected_filter
    · intro state rejected other
      have hMem :
          other
              ∈ insertRowsIgnoring id [rejected]
                state.rejected ↔ _ :=
        mem_insertRowsIgnoring
      rw [List.mem_singleton] at hMem
      exact hMem

/- Documents that go in at once have URIs of their own. -/
theorem insertCatalogDocuments_distinct
    {documents : List DocumentSymbols}
    {tables tables' : CatalogTables}
    (hInsert :
      insertCatalogDocuments generation documents tables
        = Except.ok tables') :
    (documents.map (·.uri)).Nodup := by
  rcases bind_eq_ok.mp hInsert with ⟨rows, hRows, _⟩
  rw [chunkLoop_of_additive
    (additive_insertRows DocumentRow.uri)] at hRows
  have hNodup := (insertRows_eq_ok_iff.mp hRows).1.1
  rw [List.map_map] at hNodup
  exact hNodup

theorem replaceAll_stages
    {batch : FullCatalogBatch}
    (hReplace :
      replaceAll unicode batch database
        = Except.ok (after, receipt)) :
    database.committedGeneration < batch.generation ∧
      (∀ document ∈ batch.documents,
        validateReplacement document = Except.ok ()) ∧
      (batch.documents.map (·.uri)).Nodup ∧
      (∀ document ∈ batch.documents,
        ExportsDistinct document) ∧
      after =
        { tables :=
            documentsTables unicode batch.generation
              batch.documents
          rejected := insertRowsIgnoring id batch.rejectedUris []
          committedGeneration := batch.generation } ∧
      receipt =
        ⟨batch.generation, readRejectedDocuments after⟩ := by
  rcases bind_eq_ok.mp hReplace with ⟨_, hNewer, hReplace⟩
  rcases bind_eq_ok.mp hReplace with
    ⟨generation, hBound, hReplace⟩
  rcases bind_eq_ok.mp hReplace with ⟨_, hValid, hReplace⟩
  rcases bind_eq_ok.mp hReplace with ⟨_, _, hReplace⟩
  rcases bind_eq_ok.mp hReplace with
    ⟨tables, hInsert, hReplace⟩
  injection hReplace with hReplace
  cases hReplace
  have hNodup : (batch.documents.map (·.uri)).Nodup := by
    have hUnfolded := hInsert
    unfold insertBatch at hUnfolded
    rcases bind_eq_ok.mp hUnfolded with ⟨_, _, hUnfolded⟩
    rcases bind_eq_ok.mp hUnfolded with
      ⟨_, hDocuments, _⟩
    exact insertCatalogDocuments_distinct hDocuments
  have hNew :
      Insertable CatalogTables.empty batch.documents :=
    ⟨fun _ _ => CatalogTables.lacks_empty _, hNodup⟩
  rcases (insertBatch_iff unicode hNew).mp hInsert with
    ⟨_, hDistinct, hTables⟩
  rw [CatalogTables.empty_append] at hTables
  rw [(sqliteGeneration_eq_ok.mp hBound).2, hTables]
  exact
    ⟨ensureNewerGeneration_eq_ok.mp hNewer,
      forM_eq_ok.mp hValid, hNodup, hDistinct, rfl, rfl⟩

theorem orRollback_error
    {result :
      Except StoreError (CatalogDatabase × CommitReceipt)}
    {error : StoreError}
    (hAnswer :
      (orRollback database result).1 = Except.error error) :
    (orRollback database result).2 = database := by
  cases result with
  | error other => rfl
  | ok committed => cases hAnswer

theorem orRollback_ok
    {result :
      Except StoreError (CatalogDatabase × CommitReceipt)}
    (hAnswer :
      (orRollback database result).1 = Except.ok receipt) :
    result =
      Except.ok ((orRollback database result).2, receipt) := by
  cases result with
  | error other => cases hAnswer
  | ok committed =>
    injection hAnswer with hReceipt
    rw [← hReceipt]
    rfl

theorem sqliteStore_lawful :
    (sqliteStore unicode).Lawful := by
  constructor
  · exact fun _ _ _ hAnswer => orRollback_error hAnswer
  · intro database batch receipt hAnswer
    rcases applyBatch_stages unicode (orRollback_ok hAnswer)
      with ⟨hNewer, _, replaced, _, hAfter, rfl⟩
    refine ⟨hNewer, ?_, rfl, rfl⟩
    exact congrArg CatalogDatabase.committedGeneration hAfter
  · intro database batch receipt hAnswer
    exact (applyBatch_spec unicode (orRollback_ok hAnswer)).1
  · intro database batch receipt hAnswer uri
    have hBefore :
        uri ∈ (sqliteStore unicode).rejectedUris database ↔
          uri ∈ database.rejected :=
      mem_readRejectedDocuments
    rw [hBefore]
    exact
      mem_readRejectedDocuments.trans
        ((applyBatch_spec unicode (orRollback_ok hAnswer)).2 uri)
  · exact fun _ _ _ hAnswer => orRollback_error hAnswer
  · intro database batch receipt hAnswer
    rcases replaceAll_stages unicode (orRollback_ok hAnswer)
      with ⟨hNewer, _, _, _, hAfter, rfl⟩
    refine ⟨hNewer, ?_, rfl, rfl⟩
    exact congrArg CatalogDatabase.committedGeneration hAfter
  · intro database batch receipt hAnswer uri
    rcases replaceAll_stages unicode (orRollback_ok hAnswer)
      with ⟨_, _, _, _, hAfter, _⟩
    have hUris :
        indexedUris
            (orRollback database
              (replaceAll unicode batch database)).2
          = batch.documents.map (·.uri) := by
      rw [hAfter]
      unfold indexedUris documentsTables
      rw [List.map_map]
      rfl
    change
      uri
          ∈ indexedUris
            (orRollback database
              (replaceAll unicode batch database)).2 ↔ _
    rw [hUris]
  · intro database batch receipt hAnswer uri
    rcases replaceAll_stages unicode (orRollback_ok hAnswer)
      with ⟨_, _, _, _, hAfter, _⟩
    refine mem_readRejectedDocuments.trans ?_
    have hRejected :
        (orRollback database
            (replaceAll unicode batch database)).2.rejected
          = insertRowsIgnoring id batch.rejectedUris [] :=
      congrArg CatalogDatabase.rejected hAfter
    change
      uri
          ∈ (orRollback database
            (replaceAll unicode batch database)).2.rejected ↔ _
    rw [hRejected, mem_insertRowsIgnoring]
    simp

end Sqlite

----------
-- Both Stores
----------

/-
  As long as no catalog rejects a document that it brings,
  every run of refreshes and activations on either store
  keeps the indexed and the rejected documents apart, raises
  the generation with every success, reports a ready index
  exactly when nothing is rejected, and leaves the state
  alone with every failure.
-/
theorem stores_sound
    (unicode : Unicode)
    (calls : List IndexCall)
    (hSeparate : ∀ call ∈ calls, call.Separate) :
    memoryStore.SoundRun unicode {} calls ∧
      (sqliteStore unicode).SoundRun unicode
        CatalogDatabase.new calls := by
  constructor
  · refine memoryStore_lawful.sound unicode ?_ hSeparate
    intro uri hIndexed
    cases hIndexed
  · refine (sqliteStore_lawful unicode).sound unicode ?_
      hSeparate
    intro uri hIndexed
    cases hIndexed

/- A catalog and a refresh that take two documents apart. -/
def cardThenPage : List IndexCall :=
  [.activateCatalog 1
      [oneClass "file:///a.ets" "Card"] ["file:///b.ets"],
    .refresh 2
      [⟨"file:///b.ets", "export class Page {}".toList⟩]
      ["file:///a.ets"]]

theorem stores_sound_cardThenPage :
    memoryStore.SoundRun Unicode.ascii {} cardThenPage ∧
      (sqliteStore Unicode.ascii).SoundRun Unicode.ascii
        CatalogDatabase.new cardThenPage :=
  stores_sound Unicode.ascii cardThenPage (by decide)

/- `replace_all` keeps a document that it also rejects. -/
def rejectedCard : IndexCall :=
  .activateCatalog 1
    [oneClass "file:///a.ets" "Card"] ["file:///a.ets"]

theorem stores_sound_rejectedCard :
    ¬ memoryStore.SoundRun Unicode.ascii {}
        [rejectedCard] ∧
      ¬ (sqliteStore Unicode.ascii).SoundRun Unicode.ascii
        CatalogDatabase.new [rejectedCard] := by
  constructor
  · intro hSound
    have hDisjoint :=
      (hSound.each [] rejectedCard [] rfl).disjoint
    revert hDisjoint
    decide +kernel
  · intro hSound
    have hDisjoint :=
      (hSound.each [] rejectedCard [] rfl).disjoint
    revert hDisjoint
    decide +kernel

end Store

end ArktsServer
