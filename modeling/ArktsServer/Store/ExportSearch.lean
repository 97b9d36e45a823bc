import ArktsServer.Lib.TextOrder
import ArktsServer.Lib.TopItems
import ArktsServer.Store.CatalogReplace

/-
  `SqliteStore::search_exports`: the rows whose folded names
  lie in a range of texts, read back, sorted and cut off at
  the limit.

  Key definitions include:
    * `Store.prefixParameters`, `Store.inTextRange`
    * `Store.readExportRow`
    * `Store.searchExports`
    * `Store.Mirrors`
    * `Store.RangeSuffices`

  Correctness is proven by:
    * `Store.inTextRange_iff`
    * `Store.sameContents_run`
    * `Store.searchExports_agree_iff`
    * `Store.search_reorder`
-/

namespace ArktsServer

namespace Store

open Chunking TextOrder TopItems

----------
-- Text Ranges
----------

/- The largest code point. -/
def lastCharacter : Char :=
  Char.ofNat 0x10ffff

def prefixParameters (folded : String) : String × String :=
  (folded, folded.push lastCharacter)

/- The `BINARY` collation compares the bytes of two texts. -/
def textBefore (left right : String) : Bool :=
  decide (bytesOf left.toList < bytesOf right.toList)

/- `value >= ?1 AND value < ?2`. -/
def inTextRange
    (parameters : String × String)
    (value : String) : Bool :=
  !textBefore value parameters.1 &&
    textBefore value parameters.2

theorem le_lastCharacter (char : Char) :
    char ≤ lastCharacter :=
  Nat.le_of_lt_succ (toNat_lt char)

theorem startsWith_iff
    {text start : String} :
    startsWith text start = true ↔
      start.toList <+: text.toList :=
  List.isPrefixOf_iff_prefix

/-
  The range holds the texts that start with the prefix and
  do not go on with the largest code point.
-/
theorem inTextRange_iff
    {folded value : String} :
    inTextRange (prefixParameters folded) value = true ↔
      startsWith value folded = true ∧
        startsWith value (folded.push lastCharacter)
          = false := by
  unfold inTextRange textBefore prefixParameters
  rw [Bool.and_eq_true, Bool.not_eq_true',
    decide_eq_false_iff_not, decide_eq_true_eq,
    bytesOf_lt_iff, bytesOf_lt_iff, String.toList_push,
    between_iff_prefix le_lastCharacter, startsWith_iff,
    ← Bool.not_eq_true, startsWith_iff, String.toList_push]

----------
-- The Query
----------

def kindFromI64 (value : Nat) :
    Except StoreError SymbolKind :=
  match value with
  | 1 => Except.ok .class_
  | 2 => Except.ok .struct
  | 3 => Except.ok .function
  | 4 => Except.ok .method
  | 5 => Except.ok .enum
  | 6 => Except.ok .interface
  | 7 => Except.ok .typeAlias
  | 8 => Except.ok .variable
  | 9 => Except.ok .namespace_
  | other =>
      Except.error
        ⟨.invalidData,
          "unknown persisted symbol kind " ++ toString other⟩

@[simp] theorem kindFromI64_kindToI64 (kind : SymbolKind) :
    kindFromI64 (kindToI64 kind) = Except.ok kind := by
  cases kind <;> rfl

def readExportRow
    (row : ExportRow) : Except StoreError WorkspaceExport := do
  let kind ← kindFromI64 row.symbolKind
  pure
    { exportedName := row.exportedName
      referenceExportName := row.referenceExportName
      kind := kind
      uri := row.documentUri
      range := row.range
      ordinal := row.ordinal
      declarationIdentity := row.declarationIdentity
      importSpecifier := row.importSpecifier
      moduleId := row.moduleId
      targetScope := row.targetScope
      referenceSearchable := row.referenceSearchable }

def readExportRows
    (tables : CatalogTables)
    (parameters : String × String) :
    Except StoreError (List WorkspaceExport) :=
  (tables.exports.filter fun row =>
    inTextRange parameters row.nameFolded).mapM readExportRow

section Queries

variable (unicode : Unicode)

def searchExports
    (query : ExportQuery)
    (database : CatalogDatabase) :
    Except StoreError ExportSearchResult := do
  let items ←
    if query.folded = "" then
      pure []
    else
      readExportRows database.tables
        (prefixParameters query.folded)
  pure
    ⟨(MemoryStore.sortExports unicode items).take query.limit,
      database.committedGeneration⟩

end Queries

----------
-- Mirrored Documents
----------

/- What a query needs of a row. -/
def exportFacts (row : ExportRow) :
    String × String × Except StoreError WorkspaceExport :=
  (row.documentUri, row.nameFolded, readExportRow row)

section Mirrors

variable (unicode : Unicode)

def documentFacts (document : DocumentSymbols) :
    List (String × String ×
      Except StoreError WorkspaceExport) :=
  document.exports.map fun item =>
    (document.uri, foldForSearch unicode item.exportedName,
      Except.ok item)

/- The export table holds the exports of the documents. -/
structure Mirrors
    (documents : List DocumentSymbols)
    (tables : CatalogTables) : Prop where
  facts :
    tables.exports.map exportFacts =
      documents.flatMap (documentFacts unicode)
  valid :
    ∀ document ∈ documents,
      validateReplacement document = Except.ok ()
  distinct :
    ∀ document ∈ documents, ExportsDistinct document

variable {document : DocumentSymbols}

theorem validate_exports
    (hValid : validateReplacement document = Except.ok ())
    {item : WorkspaceExport}
    (hItem : item ∈ document.exports) :
    item.uri = document.uri := by
  have hMatch := (ensureSymbolUris_eq_ok.mp hValid).2.2
  unfold symbolUrisMatch at hMatch
  simp only [Bool.and_eq_true, List.all_eq_true,
    beq_iff_eq] at hMatch
  exact hMatch.1.1.1.2 item hItem

/- The rows of a valid document read back as its exports. -/
theorem facts_exportRows
    (hValid : validateReplacement document = Except.ok ())
    (generation : Nat) :
    (exportRows unicode generation document).map exportFacts
      = documentFacts unicode document := by
  unfold exportRows documentFacts
  rw [List.map_map]
  refine List.map_congr_left ?_
  intro item hItem
  have hUri := validate_exports hValid hItem
  have hRead :
      readExportRow
          (exportRow unicode generation document.uri item)
        = Except.ok item := by
    unfold readExportRow exportRow
    rw [kindFromI64_kindToI64, ← hUri]
    rfl
  unfold Function.comp exportFacts
  rw [hRead]
  rfl

theorem filter_documentFacts
    (uri : String)
    (documents : List DocumentSymbols) :
    (documents.flatMap (documentFacts unicode)).filter
        (fun facts => decide (facts.1 ≠ uri))
      = (documents.filter (·.uri ≠ uri)).flatMap
        (documentFacts unicode) := by
  induction documents with
  | nil => rfl
  | cons document documents ih =>
    rw [List.flatMap_cons, List.filter_append, ih,
      List.filter_cons]
    by_cases hUri : document.uri = uri
    · have hNone :
          (documentFacts unicode document).filter
              (fun facts => decide (facts.1 ≠ uri))
            = [] := by
        refine List.filter_eq_nil_iff.mpr ?_
        intro facts hFacts
        rcases List.mem_map.mp hFacts with ⟨_, _, rfl⟩
        simp [hUri]
      rw [hNone, if_neg (by simp [hUri])]
      rfl
    · have hAll :
          (documentFacts unicode document).filter
              (fun facts => decide (facts.1 ≠ uri))
            = documentFacts unicode document := by
        refine List.filter_eq_self.mpr ?_
        intro facts hFacts
        rcases List.mem_map.mp hFacts with ⟨_, _, rfl⟩
        exact decide_eq_true hUri
      rw [hAll, if_pos (decide_eq_true hUri), List.flatMap_cons]

variable {unicode}
variable {tables : CatalogTables}

theorem Mirrors.remove
    {documents : DocumentMap}
    (hMirrors : Mirrors unicode documents.values tables)
    (uri : String) :
    Mirrors unicode (documents.remove uri).values
      (deleteDocument uri tables) := by
  constructor
  · have hFilter :
        (tables.exports.filter
              (fun row => decide (row.documentUri ≠ uri))).map
            exportFacts
          = (tables.exports.map exportFacts).filter
            (fun facts => decide (facts.1 ≠ uri)) := by
      rw [List.filter_map]
      rfl
    unfold deleteDocument DocumentMap.remove
    rw [hFilter, hMirrors.facts, filter_documentFacts]
  · intro document hMem
    exact hMirrors.valid document (List.mem_filter.mp hMem).1
  · intro document hMem
    exact hMirrors.distinct document (List.mem_filter.mp hMem).1

theorem Mirrors.add
    {documents : List DocumentSymbols}
    (hMirrors : Mirrors unicode documents tables)
    (hValid : validateReplacement document = Except.ok ())
    (hDistinct : ExportsDistinct document)
    (generation : Nat) :
    Mirrors unicode (documents ++ [document])
      (tables.append
        (documentTables unicode generation document)) := by
  constructor
  · have hRows :
        (documentTables unicode generation document).exports
          = exportRows unicode generation document := rfl
    unfold CatalogTables.append
    rw [hRows, List.map_append, List.flatMap_append,
      hMirrors.facts, facts_exportRows unicode hValid]
    simp
  · intro other hOther
    rcases List.mem_append.mp hOther with hOld | hNew
    · exact hMirrors.valid other hOld
    · rw [List.mem_singleton.mp hNew]
      exact hValid
  · intro other hOther
    rcases List.mem_append.mp hOther with hOld | hNew
    · exact hMirrors.distinct other hOld
    · rw [List.mem_singleton.mp hNew]
      exact hDistinct

end Mirrors

----------
-- Mirrored Runs
----------

section Runs

variable (unicode : Unicode)

/- The two stores hold the same exports. -/
structure SameContents
    (store : MemoryStore)
    (database : CatalogDatabase) : Prop where
  mirrors :
    Mirrors unicode store.documents.values database.tables
  generation :
    store.committedGeneration = database.committedGeneration

variable {unicode}
variable {next : MemoryStore.Next}

theorem mirrors_removeLoop
    {database : CatalogDatabase}
    (hMirrors :
      Mirrors unicode next.documents.values database.tables)
    (uris : List String) :
    Mirrors unicode
      (uris.foldl MemoryStore.Next.remove
        next).documents.values
      (uris.foldl removeDocument database).tables := by
  induction uris generalizing next database with
  | nil => exact hMirrors
  | cons uri uris ih => exact ih (hMirrors.remove uri)

variable {database : CatalogDatabase}

theorem mirrors_rejectLoop
    (hMirrors :
      Mirrors unicode next.documents.values database.tables)
    (uris : List String) :
    Mirrors unicode
      (uris.foldl MemoryStore.Next.reject
        next).documents.values
      (uris.foldl rejectDocument database).tables := by
  induction uris generalizing next database with
  | nil => exact hMirrors
  | cons uri uris ih => exact ih (hMirrors.remove uri)

/- The loops over the replacements go hand in hand. -/
theorem mirrors_replaceLoop
    {database replaced : CatalogDatabase}
    {generation : Nat}
    {replacements : List DocumentSymbols}
    (hMirrors :
      Mirrors unicode next.documents.values database.tables)
    (hValid :
      ∀ replacement ∈ replacements,
        validateReplacement replacement = Except.ok ())
    (hLoop :
      replacements.foldlM
          (replaceDocument unicode generation) database
        = Except.ok replaced) :
    ∃ last,
      replacements.foldlM MemoryStore.Next.replace next
          = Except.ok last ∧
        Mirrors unicode last.documents.values
          replaced.tables := by
  induction replacements generalizing next database with
  | nil =>
    cases hLoop
    exact ⟨next, rfl, hMirrors⟩
  | cons replacement replacements ih =>
    rw [List.foldlM_cons] at hLoop
    rcases bind_eq_ok.mp hLoop with ⟨middle, hStep, hRest⟩
    rcases replaceDocument_eq unicode hStep with
      ⟨hDistinct, rfl⟩
    have hOwn := hValid replacement List.mem_cons_self
    have hAdded :
        Mirrors unicode
          (next.documents.insert replacement).values
          ((deleteDocument replacement.uri
            database.tables).append
            (documentTables unicode generation replacement)) := by
      rw [DocumentMap.values_insert]
      exact
        (hMirrors.remove replacement.uri).add hOwn
          hDistinct generation
    have hLater :
        ∀ other ∈ replacements,
          validateReplacement other = Except.ok () :=
      fun other hOther =>
        hValid other (List.mem_cons_of_mem _ hOther)
    rcases
      @ih
        ⟨next.documents.insert replacement,
          next.rejectedDocuments.erase replacement.uri⟩
        { database with
          tables :=
            (deleteDocument replacement.uri
              database.tables).append
              (documentTables unicode generation replacement)
          rejected :=
            database.rejected.filter (· ≠ replacement.uri) }
        hAdded hLater hRest with
      ⟨last, hLast, hMirrored⟩
    refine ⟨last, ?_, hMirrored⟩
    rw [List.foldlM_cons]
    refine bind_eq_ok.mpr ⟨_, ?_, hLast⟩
    unfold MemoryStore.Next.replace
    exact bind_eq_ok.mpr ⟨(), hOwn, rfl⟩

variable {store : MemoryStore}

/- A batch that SQLite accepts. -/
theorem sameContents_applyBatch
    {database after : CatalogDatabase}
    {batch : RefreshBatch}
    {receipt : CommitReceipt}
    (hSame : SameContents unicode store database)
    (hApply :
      applyBatch unicode batch database
        = Except.ok (after, receipt)) :
    SameContents unicode (store.applyBatch batch).2 after := by
  rcases applyBatch_stages unicode hApply with
    ⟨hNewer, hValid, replaced, hLoop, rfl, _⟩
  have hRemoved :=
    @mirrors_removeLoop _
      ⟨store.documents, store.rejectedDocuments⟩ database
      hSame.mirrors batch.removedUris
  rcases mirrors_replaceLoop hRemoved hValid hLoop with
    ⟨last, hLast, hMirrored⟩
  have hNext :
      store.nextContents batch =
        Except.ok
          (batch.rejectedUris.foldl MemoryStore.Next.reject
            last) := by
    unfold MemoryStore.nextContents
    refine bind_eq_ok.mpr ⟨(), ?_, ?_⟩
    · rw [hSame.generation]
      exact ensureNewerGeneration_eq_ok.mpr hNewer
    · exact bind_eq_ok.mpr ⟨last, hLast, rfl⟩
  unfold MemoryStore.applyBatch
  rw [hNext]
  exact ⟨mirrors_rejectLoop hMirrored batch.rejectedUris, rfl⟩

theorem mirrors_insertLoop
    (generation : Nat)
    {documents : List DocumentSymbols}
    {map : DocumentMap}
    {tables : CatalogTables}
    (hMirrors : Mirrors unicode map.values tables)
    (hNew :
      ∀ document ∈ documents, document.uri ∉ map.keys)
    (hNodup : (documents.map (·.uri)).Nodup)
    (hValid :
      ∀ document ∈ documents,
        validateReplacement document = Except.ok ())
    (hDistinct :
      ∀ document ∈ documents, ExportsDistinct document) :
    ∃ last,
      documents.foldlM MemoryStore.insertChecked map
          = Except.ok last ∧
        Mirrors unicode last.values
          (tables.append
            (documentsTables unicode generation
              documents)) := by
  induction documents generalizing map tables with
  | nil =>
    refine ⟨map, rfl, ?_⟩
    rw [documentsTables_nil, CatalogTables.append_empty]
    exact hMirrors
  | cons document documents ih =>
    have hOwn := hValid document List.mem_cons_self
    have hAbsent := hNew document List.mem_cons_self
    rw [List.map_cons, List.nodup_cons] at hNodup
    have hKept :
        (map.remove document.uri).values = map.values := by
      refine List.filter_eq_self.mpr ?_
      intro other hOther
      refine decide_eq_true ?_
      intro hUri
      exact hAbsent (List.mem_map.mpr ⟨other, hOther, hUri⟩)
    have hAdded :
        Mirrors unicode (map.insert document).values
          (tables.append
            (documentTables unicode generation document)) := by
      rw [DocumentMap.values_insert, hKept]
      exact
        hMirrors.add hOwn
          (hDistinct document List.mem_cons_self)
          generation
    rcases
      ih hAdded
        (by
          intro other hOther hKey
          rcases DocumentMap.mem_keys_insert.mp hKey with
            hOld | hSame
          · exact
              hNew other (List.mem_cons_of_mem _ hOther) hOld
          · exact
              hNodup.1 (List.mem_map.mpr ⟨other, hOther, hSame⟩))
        hNodup.2
        (fun other hOther =>
          hValid other (List.mem_cons_of_mem _ hOther))
        (fun other hOther =>
          hDistinct other (List.mem_cons_of_mem _ hOther))
      with ⟨last, hLast, hMirrored⟩
    refine ⟨last, ?_, ?_⟩
    · rw [List.foldlM_cons]
      refine bind_eq_ok.mpr ⟨_, ?_, hLast⟩
      unfold MemoryStore.insertChecked
      exact bind_eq_ok.mpr ⟨(), hOwn, rfl⟩
    · rw [CatalogTables.append_assoc,
        ← documentsTables_singleton,
        ← documentsTables_append] at hMirrored
      exact hMirrored

/- A catalog that SQLite accepts. -/
theorem sameContents_replaceAll
    {database after : CatalogDatabase}
    {batch : FullCatalogBatch}
    {receipt : CommitReceipt}
    (hSame : SameContents unicode store database)
    (hReplace :
      replaceAll unicode batch database
        = Except.ok (after, receipt)) :
    SameContents unicode (store.replaceAll batch).2 after := by
  rcases replaceAll_stages unicode hReplace with
    ⟨hNewer, hValid, hNodup, hDistinct, rfl, _⟩
  have hEmpty :
      Mirrors unicode DocumentMap.empty.values
        CatalogTables.empty := by
    refine ⟨rfl, ?_, ?_⟩
    · intro document hMem
      cases hMem
    · intro document hMem
      cases hMem
  rcases
    mirrors_insertLoop batch.generation hEmpty
      (fun _ _ hKey => by cases hKey) hNodup hValid hDistinct
    with ⟨last, hLast, hMirrored⟩
  rw [CatalogTables.empty_append] at hMirrored
  have hNext :
      store.replacedContents batch =
        Except.ok
          ⟨last, OrderedSet.ofList batch.rejectedUris⟩ := by
    unfold MemoryStore.replacedContents
    refine bind_eq_ok.mpr ⟨(), ?_, ?_⟩
    · rw [hSame.generation]
      exact ensureNewerGeneration_eq_ok.mpr hNewer
    · exact bind_eq_ok.mpr ⟨last, hLast, rfl⟩
  unfold MemoryStore.replaceAll
  rw [hNext]
  exact ⟨hMirrored, rfl⟩

theorem sameContents_call
    (hSame : SameContents unicode store database)
    {call : IndexCall}
    (hOk :
      ((sqliteStore unicode).call unicode database call).1.isOk
        = true) :
    SameContents unicode
      (memoryStore.call unicode store call).2
      ((sqliteStore unicode).call unicode database call).2 := by
  cases call with
  | refresh generation changedDocuments removedUris =>
    rcases SymbolStore.isOk_map.mp hOk with ⟨receipt, hReceipt⟩
    exact sameContents_applyBatch hSame (orRollback_ok hReceipt)
  | activateCatalog generation documents rejectedUris =>
    rcases SymbolStore.isOk_map.mp hOk with ⟨receipt, hReceipt⟩
    exact sameContents_replaceAll hSame (orRollback_ok hReceipt)

/- Accepted calls keep the two stores together. -/
theorem sameContents_run
    (hSame : SameContents unicode store database)
    {calls : List IndexCall}
    (hAccepted :
      (sqliteStore unicode).accepts unicode database calls
        = true) :
    SameContents unicode
      (memoryStore.callRun unicode store calls)
      ((sqliteStore unicode).callRun unicode database
        calls) := by
  induction calls generalizing store database with
  | nil => exact hSame
  | cons call calls ih =>
    rcases Bool.and_eq_true_iff.mp hAccepted with
      ⟨hOk, hLater⟩
    exact ih (sameContents_call hSame hOk) hLater

end Runs

----------
-- Agreement
----------

section Agreement

variable (unicode : Unicode)

def exportsOf (documents : List DocumentSymbols) :
    List WorkspaceExport :=
  documents.flatMap (·.exports)

/- A matching export that the range leaves out. -/
def missedByRange
    (query : ExportQuery)
    (item : WorkspaceExport) : Bool :=
  decide (query.folded = "") ||
    startsWith (foldForSearch unicode item.exportedName)
      (query.folded.push lastCharacter)

/-
  Each matching export that the range leaves out has enough
  matching exports before it to be cut off anyway.
-/
def RangeSuffices
    (query : ExportQuery)
    (exports : List WorkspaceExport) : Prop :=
  let found :=
    exports.filter (MemoryStore.exportMatches unicode query)
  ∀ item ∈ found,
    missedByRange unicode query item = true →
    query.limit
      ≤ found.countP fun other =>
          MemoryStore.exportSortKey unicode other
            < MemoryStore.exportSortKey unicode item

theorem read_of_facts
    {rows : List ExportRow}
    {entries : List (String × WorkspaceExport)}
    (hFacts :
      rows.map exportFacts =
        entries.map fun entry =>
          (entry.1,
            foldForSearch unicode entry.2.exportedName,
            Except.ok entry.2))
    (parameters : String × String) :
    (rows.filter fun row =>
        inTextRange parameters row.nameFolded).mapM
          readExportRow
      = Except.ok
        ((entries.map (·.2)).filter fun item =>
          inTextRange parameters
            (foldForSearch unicode item.exportedName)) := by
  induction rows generalizing entries with
  | nil =>
    cases entries with
    | nil => rfl
    | cons entry entries => cases hFacts
  | cons row rows ih =>
    cases entries with
    | nil => cases hFacts
    | cons entry entries =>
      injection hFacts with hHead hTail
      unfold exportFacts at hHead
      simp only [Prod.mk.injEq] at hHead
      rcases hHead with ⟨_, hName, hRead⟩
      rw [List.filter_cons, List.map_cons,
        List.filter_cons, hName]
      split
      · rw [List.mapM_cons, hRead, ih hTail]
        rfl
      · exact ih hTail

variable {documents : List DocumentSymbols}

theorem readExportRows_of_mirrors
    {tables : CatalogTables}
    (hMirrors : Mirrors unicode documents tables)
    (parameters : String × String) :
    readExportRows tables parameters =
      Except.ok
        ((exportsOf documents).filter fun item =>
          inTextRange parameters
            (foldForSearch unicode item.exportedName)) := by
  have hEntries :
      tables.exports.map exportFacts =
        (documents.flatMap fun document =>
          document.exports.map fun item =>
            (document.uri, item)).map fun entry =>
              (entry.1,
                foldForSearch unicode entry.2.exportedName,
                Except.ok entry.2) := by
    rw [hMirrors.facts, List.map_flatMap]
    simp only [List.map_map]
    rfl
  unfold readExportRows
  rw [read_of_facts unicode hEntries]
  unfold exportsOf
  simp [List.map_flatMap]

/- What SQLite finds is what memory finds and does not miss. -/
theorem searchExports_of_mirrors
    {database : CatalogDatabase}
    (hMirrors : Mirrors unicode documents database.tables)
    (query : ExportQuery) :
    searchExports unicode query database =
      Except.ok
        ⟨top (MemoryStore.exportSortKey unicode) query.limit
          (((exportsOf documents).filter
            (MemoryStore.exportMatches unicode query)).filter
              fun item => !missedByRange unicode query item),
          database.committedGeneration⟩ := by
  unfold searchExports
  by_cases hEmpty : query.folded = ""
  · have hNone :
        ((exportsOf documents).filter
            (MemoryStore.exportMatches unicode query)).filter
              (fun item => !missedByRange unicode query item)
          = [] := by
      refine List.filter_eq_nil_iff.mpr ?_
      intro item _
      unfold missedByRange
      simp [hEmpty]
    rw [if_pos hEmpty, hNone]
    rfl
  · have hFound :
        ((exportsOf documents).filter
            (MemoryStore.exportMatches unicode query)).filter
              (fun item => !missedByRange unicode query item)
          = (exportsOf documents).filter fun item =>
              inTextRange (prefixParameters query.folded)
                (foldForSearch unicode item.exportedName) := by
      rw [List.filter_filter]
      refine List.filter_congr ?_
      intro item _
      rw [Bool.eq_iff_iff, Bool.and_eq_true,
        Bool.not_eq_true', inTextRange_iff]
      unfold missedByRange MemoryStore.exportMatches
      simp [hEmpty, and_comm]
    rw [if_neg hEmpty, readExportRows_of_mirrors unicode hMirrors,
      hFound]
    rfl

/- The URI and the ordinal tell all exports apart. -/
theorem distinct_exports
    {documents : DocumentMap}
    {tables : CatalogTables}
    (hMirrors : Mirrors unicode documents.values tables) :
    Distinct (MemoryStore.exportSortKey unicode)
      (exportsOf documents.values) := by
  unfold Distinct exportsOf
  rw [List.map_flatMap, List.nodup_flatMap]
  constructor
  · intro document hDocument
    have hOrdinals := hMirrors.distinct document hDocument
    unfold ExportsDistinct at hOrdinals
    refine List.Nodup.of_map (fun sortKey => (ofLex (ofLex sortKey).2).2) ?_
    rw [List.map_map]
    exact hOrdinals
  · have hApart := List.pairwise_map.mp documents.distinct
    refine hApart.imp_of_mem ?_
    intro left right hLeft hRight hUris sortKey hOne hOther
    rcases List.mem_map.mp hOne with ⟨one, hOneMem, rfl⟩
    rcases List.mem_map.mp hOther with
      ⟨other, hOtherMem, hSame⟩
    have hUri : other.uri = one.uri :=
      congrArg (fun sortKey => (ofLex (ofLex sortKey).2).1) hSame
    rw [validate_exports (hMirrors.valid left hLeft) hOneMem,
      validate_exports (hMirrors.valid right hRight)
        hOtherMem] at hUri
    exact hUris hUri.symm

/-
  After calls that SQLite accepts, both stores answer a
  query the same, whatever order the documents in memory are
  iterated over, exactly when the range suffices for it.
-/
theorem searchExports_agree_iff
    (calls : List IndexCall)
    (hAccepted :
      (sqliteStore unicode).accepts unicode
        CatalogDatabase.new calls = true)
    (query : String)
    (limit : Nat)
    (values : List DocumentSymbols)
    (hOrder :
      values.Perm
        (memoryStore.callRun unicode {}
          calls).documents.values) :
    searchExports unicode
        (ExportQuery.new unicode query limit)
        ((sqliteStore unicode).callRun unicode
          CatalogDatabase.new calls)
      = Except.ok
        (((memoryStore.callRun unicode {} calls).reorder
          values hOrder).searchExports unicode
            (ExportQuery.new unicode query limit)) ↔
      RangeSuffices unicode
        (ExportQuery.new unicode query limit)
        (exportsOf values) := by
  have hNew :
      SameContents unicode {} CatalogDatabase.new := by
    refine ⟨⟨rfl, ?_, ?_⟩, rfl⟩
    · intro document hMem
      cases hMem
    · intro document hMem
      cases hMem
  have hSame := sameContents_run hNew hAccepted
  generalize memoryStore.callRun unicode {} calls = store
    at hOrder hSame ⊢
  generalize
    (sqliteStore unicode).callRun unicode CatalogDatabase.new
      calls = database at hSame ⊢
  generalize ExportQuery.new unicode query limit = search
  have hExports :
      (exportsOf values).Perm
        (exportsOf store.documents.values) :=
    hOrder.flatMap_right _
  have hFound :=
    hExports.filter (MemoryStore.exportMatches unicode search)
  have hDistinct :
      Distinct (MemoryStore.exportSortKey unicode)
        ((exportsOf values).filter
          (MemoryStore.exportMatches unicode search)) :=
    ((distinct_exports unicode hSame.mirrors).of_perm
      hExports.symm).filter _
  -- The range leaves some of the matching exports out.
  have hRange :
      top (MemoryStore.exportSortKey unicode) search.limit
          (((exportsOf store.documents.values).filter
            (MemoryStore.exportMatches unicode search)).filter
              fun item => !missedByRange unicode search item)
        = top (MemoryStore.exportSortKey unicode)
          search.limit
          (((exportsOf values).filter
            (MemoryStore.exportMatches unicode search)).filter
              fun item =>
                !missedByRange unicode search item) := by
    unfold top
    rw [sortBy_of_perm (hFound.symm.filter _)
      ((hDistinct.of_perm hFound).filter _)]
  rw [searchExports_of_mirrors unicode hSame.mirrors, hRange]
  have hAnswers :
      (Except.ok
          ⟨top (MemoryStore.exportSortKey unicode)
            search.limit
            (((exportsOf values).filter
              (MemoryStore.exportMatches unicode
                search)).filter
                fun item =>
                  !missedByRange unicode search item),
            database.committedGeneration⟩ :
          Except StoreError ExportSearchResult)
          = Except.ok
            ((store.reorder values hOrder).searchExports
              unicode search) ↔
        top (MemoryStore.exportSortKey unicode) search.limit
            (((exportsOf values).filter
              (MemoryStore.exportMatches unicode
                search)).filter
                fun item =>
                  !missedByRange unicode search item)
          = top (MemoryStore.exportSortKey unicode)
            search.limit
            ((exportsOf values).filter
              (MemoryStore.exportMatches unicode search)) := by
    constructor
    · intro hEqual
      injection hEqual with hResult
      exact congrArg ExportSearchResult.items hResult
    · intro hItems
      rw [hItems, ← hSame.generation]
      rfl
  rw [hAnswers, top_filter_eq_iff hDistinct]
  unfold RangeSuffices
  simp

theorem searchExports_agree_cardThenPage :
    searchExports Unicode.ascii
        (ExportQuery.new Unicode.ascii "pa" 10)
        ((sqliteStore Unicode.ascii).callRun Unicode.ascii
          CatalogDatabase.new cardThenPage)
      = Except.ok
        (((memoryStore.callRun Unicode.ascii {}
          cardThenPage).reorder _
            (List.Perm.refl _)).searchExports Unicode.ascii
              (ExportQuery.new Unicode.ascii "pa" 10)) :=
  (searchExports_agree_iff Unicode.ascii cardThenPage
    (by decide +kernel) "pa" 10 _ (List.Perm.refl _)).mpr
      (by unfold RangeSuffices; decide +kernel)

/- A catalog of one document. -/
def cardOnly : List IndexCall :=
  [.activateCatalog 1 [oneClass "file:///a.ets" "Card"] []]

/- The empty query finds every export, or none at all. -/
theorem searchExports_disagree_emptyQuery :
    searchExports Unicode.ascii
        (ExportQuery.new Unicode.ascii "" 10)
        ((sqliteStore Unicode.ascii).callRun Unicode.ascii
          CatalogDatabase.new cardOnly)
      ≠ Except.ok
        ((memoryStore.callRun Unicode.ascii {}
          cardOnly).searchExports Unicode.ascii
            (ExportQuery.new Unicode.ascii "" 10)) := by
  decide +kernel

end Agreement

----------
-- Symbols in Memory
----------

/- Lists of which one at most is not empty. -/
theorem flatMap_perm_of_single
    {Item Other : Type}
    {lists : Item → List Other}
    {items others : List Item}
    (hPerm : items.Perm others)
    (hSingle :
      items.Pairwise fun left right =>
        lists left = [] ∨ lists right = []) :
    items.flatMap lists = others.flatMap lists := by
  induction hPerm with
  | nil => rfl
  | cons item _ ih =>
    rw [List.flatMap_cons, List.flatMap_cons,
      ih (List.Pairwise.of_cons hSingle)]
  | swap second first rest =>
    simp only [List.flatMap_cons]
    rcases List.rel_of_pairwise_cons hSingle
        List.mem_cons_self with
      hNone | hNone <;> simp [hNone]
  | trans hFirst _ ihFirst ihSecond =>
    refine (ihFirst hSingle).trans (ihSecond ?_)
    exact (hFirst.pairwise_iff Or.symm).mp hSingle

/-
  The order in which the documents in memory are iterated
  over is not seen in an answer, if each of them has passed
  the check of its URIs: symbols of one place are those of
  one document.
-/
theorem search_reorder
    (unicode : Unicode)
    (query : SymbolQuery)
    (store : MemoryStore)
    (hUris :
      ∀ document ∈ store.documents.values,
        symbolUrisMatch document = true)
    {values : List DocumentSymbols}
    (hOrder : values.Perm store.documents.values) :
    (store.reorder values hOrder).search unicode query =
      store.search unicode query := by
  have hSorted :
      sortBy (symbolSortKey unicode)
          ((values.flatMap (·.symbols)).filterMap
            (rankedSymbol unicode query)) =
        sortBy (symbolSortKey unicode)
          ((store.documents.values.flatMap
            (·.symbols)).filterMap
              (rankedSymbol unicode query)) := by
    refine sortBy_congr ?_
    intro place
    unfold ofKey
    rw [List.filterMap_flatMap, List.filterMap_flatMap,
      List.filter_flatMap, List.filter_flatMap]
    have hOwn :
        ∀ document ∈ store.documents.values,
          (document.symbols.filterMap
              (rankedSymbol unicode query)).filter
              (fun entry =>
                symbolSortKey unicode entry = place) ≠ [] →
            document.uri =
              (ofLex (ofLex (ofLex place).2).2).1 := by
      intro document hDocument hSome
      rcases List.exists_mem_of_ne_nil _ hSome with
        ⟨entry, hEntry⟩
      rcases List.mem_filter.mp hEntry with ⟨hRanked, hPlace⟩
      rcases List.mem_filterMap.mp hRanked with
        ⟨symbol, hSymbol, hRank⟩
      have hMatch := hUris document hDocument
      simp only [symbolUrisMatch, Bool.and_eq_true,
        List.all_eq_true, beq_iff_eq] at hMatch
      unfold rankedSymbol at hRank
      split at hRank
      · cases hRank
      · rcases Option.map_eq_some_iff.mp hRank with
          ⟨rank, _, rfl⟩
        rw [← of_decide_eq_true hPlace]
        exact (hMatch.1.1.1.1 symbol hSymbol).symm
    refine (flatMap_perm_of_single hOrder.symm ?_).symm
    refine
      (List.pairwise_map.mp
        store.documents.distinct).imp_of_mem ?_
    intro left right hLeft hRight hApart
    by_contra hBoth
    rw [not_or] at hBoth
    exact
      hApart
        ((hOwn left hLeft hBoth.1).trans
          (hOwn right hRight hBoth.2).symm)
  exact
    congrArg
      (fun sorted : List (Nat × WorkspaceSymbol) =>
        SymbolSearchResult.mk
          ((sorted.take query.limit).map (·.2))
          store.committedGeneration)
      hSorted

/- Three symbols of one name, two of them at one place. -/
theorem search_reorder_sample :
    let card := oneClass "file:///a.ets" "Card"
    let documents : DocumentMap :=
      ⟨[{ card with
          symbols :=
            card.symbols ++
              (oneClass "file:///a.ets" "CARD").symbols },
        oneClass "file:///b.ets" "Card"], by decide⟩
    let store : MemoryStore := { documents }
    let query := SymbolQuery.new Unicode.ascii "card" 2
    (store.reorder _ (List.Perm.swap _ _ _)).search
        Unicode.ascii query =
      store.search Unicode.ascii query :=
  search_reorder Unicode.ascii _ _ (by decide) _

end Store

end ArktsServer
