import Mathlib.Data.List.Nodup
import ArktsServer.Core.SymbolRanking
import ArktsServer.Store.CatalogTables

/-
  The insertions of document facts into the tables of an
  index database: documents in statements of 64 rows,
  symbols and occurrence identities through buffers of 256
  rows, everything else row by row.

  A vector has fewer than 2^63 elements, so the conversion
  of an ordinal to an SQLite integer never fails and is left
  out.

  Key definitions include:
    * `insertCatalogDocuments`, `insertSymbolDocumentsAt`,
      `insertExportDocuments`, `insertHeritageDocumentsAt`,
      `insertReferenceDocuments`
    * `insertDocumentSymbols`
    * `DocumentSymbols.rows`, `documentRow`

  Correctness is proven by:
    * `insertReferenceDocument_iff`
    * `insertReferenceDocuments_eq`
    * `insertHeritageDocuments_eq`
-/

----------
-- Rows of a Document
----------

namespace ArktsServer

namespace Store

open Chunking

def kindToI64 : SymbolKind → Nat
| .class_ => 1
| .struct => 2
| .function => 3
| .method => 4
| .enum => 5
| .interface => 6
| .typeAlias => 7
| .variable => 8
| .namespace_ => 9

def referenceBindingKindToI64 : ReferenceBindingKind → Nat
| .import_ => 1
| .reExport => 2

section Rows

variable (unicode : Unicode)

/- The row that `insert_catalog_documents` writes. -/
def documentRow
    (generation : Nat)
    (document : DocumentSymbols) : DocumentRow where
  uri := document.uri
  generation := generation
  heritageLexicallyComplete := none
  classBindingsSourceSupported := none

def symbolRow
    (uri : String)
    (entry : WorkspaceSymbol × Nat) : SymbolRow where
  documentUri := uri
  ordinal := entry.2
  name := entry.1.name
  nameFolded := foldForSearch unicode entry.1.name
  acronymFolded := acronymForSearch unicode entry.1.name
  kind := kindToI64 entry.1.kind
  container := entry.1.container
  range := entry.1.range

/- An export row keeps the ordinal of the export itself. -/
def exportRow
    (generation : Nat)
    (uri : String)
    (item : WorkspaceExport) : ExportRow where
  documentUri := uri
  generation := generation
  ordinal := item.ordinal
  exportedName := item.exportedName
  referenceExportName := item.referenceExportName
  nameFolded := foldForSearch unicode item.exportedName
  symbolKind := kindToI64 item.kind
  declarationIdentity := item.declarationIdentity
  importSpecifier := item.importSpecifier
  moduleId := item.moduleId
  targetScope := item.targetScope
  range := item.range
  referenceSearchable := item.referenceSearchable

def occurrenceRow
    (uri : String)
    (entry : ReferenceOccurrence × Nat) : OccurrenceRow where
  documentUri := uri
  ordinal := entry.2
  name := entry.1.name
  range := entry.1.range
  qualified := entry.1.qualified

/- The tuple that identities are sorted by. -/
abbrev IdentityKey :=
  String ×ₗ Int ×ₗ String

def identityKey
    (occurrence : ReferenceOccurrence) : IdentityKey :=
  toLex
    (occurrence.name,
      toLex
        (match occurrence.qualified with
          | none => -1
          | some false => 0
          | some true => 1,
        occurrence.qualifier.getD ""))

def identityRow
    (uri : String)
    (key : IdentityKey) : IdentityRow where
  documentUri := uri
  name := (ofLex key).1
  qualification := (ofLex (ofLex key).2).1
  qualifier := (ofLex (ofLex key).2).2

/- The distinct identities of a document, sorted. -/
def identityRows
    (uri : String)
    (occurrences : List ReferenceOccurrence) :
    List IdentityRow :=
  (OrderedSet.ofList
    (occurrences.map identityKey)).toList.map
    (identityRow uri)

def aliasRow
    (uri : String)
    (entry : ReferenceAlias × Nat) : AliasRow where
  documentUri := uri
  ordinal := entry.2
  fromName := entry.1.fromName
  toName := entry.1.toName

def bindingRow
    (uri : String)
    (entry : ReferenceBinding × Nat) : BindingRow where
  documentUri := uri
  ordinal := entry.2
  importedName := entry.1.importedName
  localName := entry.1.localName
  sourceSpecifier := entry.1.sourceSpecifier
  kind := referenceBindingKindToI64 entry.1.kind

def directExports
    (document : DocumentSymbols) : List TextRange :=
  match document.classBindingProvenance with
  | some facts => facts.directExports
  | none => []

def heritageRow
    (uri : String)
    (exports : List TextRange)
    (entry : ClassHeritageDeclaration × Nat) :
    HeritageRow where
  documentUri := uri
  ordinal := entry.2
  name := entry.1.name
  nameRange := entry.1.nameRange
  declarationRange := entry.1.declarationRange
  base := entry.1.base
  isDirectExport := exports.contains entry.1.nameRange

----------
-- Insertions
----------

def documentsPerInsert : Nat :=
  64

theorem documentsPerInsert_pos : 0 < documentsPerInsert := by
  decide

def insertCatalogDocuments
    (generation : Nat)
    (documents : List DocumentSymbols)
    (tables : CatalogTables) :
    Except StoreError CatalogTables := do
  let rows ←
    chunkLoop
      (ChunkSize.const documentsPerInsert
        documentsPerInsert_pos)
      (fun _ => insertRows DocumentRow.uri) 0
      (documents.map (documentRow generation))
      tables.documents
  pure { tables with documents := rows }

def SymbolRow.key (row : SymbolRow) : String × Nat :=
  (row.documentUri, row.ordinal)

def ExportRow.key (row : ExportRow) : String × Nat :=
  (row.documentUri, row.ordinal)

def OccurrenceRow.key (row : OccurrenceRow) : String × Nat :=
  (row.documentUri, row.ordinal)

def AliasRow.key (row : AliasRow) : String × Nat :=
  (row.documentUri, row.ordinal)

def BindingRow.key (row : BindingRow) : String × Nat :=
  (row.documentUri, row.ordinal)

def HeritageRow.key (row : HeritageRow) : String × Nat :=
  (row.documentUri, row.ordinal)

def symbolRows
    (offset : Nat)
    (document : DocumentSymbols) : List SymbolRow :=
  (document.symbols.zipIdx offset).map
    (symbolRow unicode document.uri)

def insertSymbolDocumentsAt
    (offset : Nat)
    (documents : List DocumentSymbols)
    (tables : CatalogTables) :
    Except StoreError CatalogTables := do
  let rest ←
    buffered 256 (insertRows SymbolRow.key) []
      (documents.flatMap (symbolRows unicode offset))
      tables.symbols
  let rows ← flushRest (insertRows SymbolRow.key) rest
  pure { tables with symbols := rows }

def insertSymbolDocuments
    (documents : List DocumentSymbols)
    (tables : CatalogTables) :
    Except StoreError CatalogTables :=
  insertSymbolDocumentsAt unicode 0 documents tables

def exportRows
    (generation : Nat)
    (document : DocumentSymbols) : List ExportRow :=
  document.exports.map
    (exportRow unicode generation document.uri)

def insertExportDocuments
    (generation : Nat)
    (documents : List DocumentSymbols)
    (tables : CatalogTables) :
    Except StoreError CatalogTables := do
  let rows ←
    insertRows ExportRow.key
      (documents.flatMap (exportRows unicode generation))
      tables.exports
  pure { tables with exports := rows }

/- `UPDATE documents SET ... WHERE uri = ...`. -/
def updateDocument
    (uri : String)
    (update : DocumentRow → DocumentRow)
    (rows : List DocumentRow) : List DocumentRow :=
  rows.map fun row =>
    if row.uri = uri then update row else row

def setSourceSupported
    (document : DocumentSymbols)
    (row : DocumentRow) : DocumentRow :=
  { row with
    classBindingsSourceSupported :=
      document.classBindingProvenance.map
        (·.sourceSupported) }

def setLexicallyComplete
    (facts : DocumentClassHeritage)
    (row : DocumentRow) : DocumentRow :=
  { row with
    heritageLexicallyComplete :=
      some facts.lexicallyComplete }

def heritageRows
    (offset : Nat)
    (document : DocumentSymbols)
    (facts : DocumentClassHeritage) : List HeritageRow :=
  (facts.classes.zipIdx offset).map
    (heritageRow document.uri (directExports document))

def insertHeritageDocument
    (offset : Nat)
    (tables : CatalogTables)
    (document : DocumentSymbols) :
    Except StoreError CatalogTables :=
  let supported :=
    updateDocument document.uri (setSourceSupported document)
      tables.documents
  match document.classHeritage with
  | none => Except.ok { tables with documents := supported }
  | some facts => do
      let rows ←
        insertRows HeritageRow.key
          (heritageRows offset document facts)
          tables.heritage
      pure
        { tables with
          documents :=
            updateDocument document.uri
              (setLexicallyComplete facts) supported
          heritage := rows }

def insertHeritageDocumentsAt
    (offset : Nat)
    (documents : List DocumentSymbols)
    (tables : CatalogTables) :
    Except StoreError CatalogTables :=
  documents.foldlM (insertHeritageDocument offset) tables

def insertHeritageDocuments
    (documents : List DocumentSymbols)
    (tables : CatalogTables) :
    Except StoreError CatalogTables :=
  insertHeritageDocumentsAt 0 documents tables

def occurrenceRows
    (offset : Nat)
    (document : DocumentSymbols) : List OccurrenceRow :=
  (document.occurrences.zipIdx offset).map
    (occurrenceRow document.uri)

def aliasRows
    (offset : Nat)
    (document : DocumentSymbols) : List AliasRow :=
  (document.aliases.zipIdx offset).map
    (aliasRow document.uri)

def bindingRows
    (offset : Nat)
    (document : DocumentSymbols) : List BindingRow :=
  (document.bindings.zipIdx offset).map
    (bindingRow document.uri)

/- `insert_occurrence_identity_values`. -/
def insertIdentityValues
    (ignoreConflicts : Bool)
    (rows table : List IdentityRow) :
    Except StoreError (List IdentityRow) :=
  if ignoreConflicts then
    Except.ok (insertRowsIgnoring id rows table)
  else
    insertRows id rows table

/- One round of the loop of `insert_documents`. -/
def insertReferenceDocument
    (offset : Nat)
    (ignoreConflicts : Bool)
    (state : List IdentityRow × CatalogTables)
    (document : DocumentSymbols) :
    Except StoreError (List IdentityRow × CatalogTables) := do
  let tables := state.2
  let occurrences ←
    insertRows OccurrenceRow.key
      (occurrenceRows offset document) tables.occurrences
  let identities ←
    buffered 256 (insertIdentityValues ignoreConflicts)
      state.1
      (identityRows document.uri document.occurrences)
      tables.identities
  let aliases ←
    insertRows AliasRow.key (aliasRows offset document)
      tables.aliases
  let bindings ←
    insertRows BindingRow.key (bindingRows offset document)
      tables.bindings
  pure
    (identities.1,
      { tables with
        occurrences := occurrences
        identities := identities.2
        aliases := aliases
        bindings := bindings })

/- Write the identities that are still in the buffer. -/
def finishReferences
    (ignoreConflicts : Bool)
    (state : List IdentityRow × CatalogTables) :
    Except StoreError CatalogTables := do
  let identities ←
    flushRest (insertIdentityValues ignoreConflicts)
      (state.1, state.2.identities)
  pure { state.2 with identities := identities }

/- `insert_documents` of the reference tables. -/
def insertReferenceDocumentsAt
    (offset : Nat)
    (ignoreConflicts : Bool)
    (documents : List DocumentSymbols)
    (tables : CatalogTables) :
    Except StoreError CatalogTables :=
  documents.foldlM
      (insertReferenceDocument offset ignoreConflicts)
      ([], tables) >>=
    finishReferences ignoreConflicts

def insertReferenceDocuments
    (documents : List DocumentSymbols)
    (tables : CatalogTables) :
    Except StoreError CatalogTables :=
  insertReferenceDocumentsAt 0 false documents tables

def insertDocumentChunk
    (document : DocumentSymbols)
    (offset : Nat)
    (tables : CatalogTables) :
    Except StoreError CatalogTables :=
  insertReferenceDocumentsAt offset true [document] tables

/- `SELECT generation FROM documents WHERE uri = ...`. -/
def documentGeneration
    (uri : String)
    (tables : CatalogTables) : Except StoreError Nat :=
  match tables.documents.find? (·.uri = uri) with
  | some row => Except.ok row.generation
  | none =>
      Except.error
        ⟨.internal,
          "SQLite index error: Query returned no rows"⟩

/- Everything but the document row of one document. -/
def insertDocumentSymbols
    (replacement : DocumentSymbols)
    (tables : CatalogTables) :
    Except StoreError CatalogTables := do
  let tables ←
    insertSymbolDocuments unicode [replacement] tables
  let generation ← documentGeneration replacement.uri tables
  let tables ←
    insertExportDocuments unicode generation [replacement]
      tables
  let tables ← insertReferenceDocuments [replacement] tables
  insertHeritageDocuments [replacement] tables

----------
-- The Rows a Document Stands For
----------

/- The document row after the heritage updates. -/
def settledDocumentRow
    (generation : Nat)
    (document : DocumentSymbols) : DocumentRow where
  uri := document.uri
  generation := generation
  heritageLexicallyComplete :=
    document.classHeritage.map (·.lexicallyComplete)
  classBindingsSourceSupported :=
    document.classBindingProvenance.map (·.sourceSupported)

def documentHeritageRows
    (offset : Nat)
    (document : DocumentSymbols) : List HeritageRow :=
  match document.classHeritage with
  | none => []
  | some facts => heritageRows offset document facts

/- Every row that one document contributes. -/
def documentTables
    (generation : Nat)
    (document : DocumentSymbols) : CatalogTables where
  documents := [settledDocumentRow generation document]
  symbols := symbolRows unicode 0 document
  exports := exportRows unicode generation document
  occurrences := occurrenceRows 0 document
  identities :=
    identityRows document.uri document.occurrences
  aliases := aliasRows 0 document
  bindings := bindingRows 0 document
  heritage := documentHeritageRows 0 document

/- The rows of a list of documents, in its order. -/
def documentsTables
    (generation : Nat)
    (documents : List DocumentSymbols) : CatalogTables where
  documents :=
    documents.map (settledDocumentRow generation)
  symbols := documents.flatMap (symbolRows unicode 0)
  exports :=
    documents.flatMap (exportRows unicode generation)
  occurrences := documents.flatMap (occurrenceRows 0)
  identities :=
    documents.flatMap fun document =>
      identityRows document.uri document.occurrences
  aliases := documents.flatMap (aliasRows 0)
  bindings := documents.flatMap (bindingRows 0)
  heritage := documents.flatMap (documentHeritageRows 0)

@[simp] theorem documentsTables_nil (generation : Nat) :
    documentsTables unicode generation [] =
      CatalogTables.empty :=
  rfl

theorem documentsTables_singleton
    (generation : Nat)
    (document : DocumentSymbols) :
    documentsTables unicode generation [document] =
      documentTables unicode generation document := by
  simp [documentsTables, documentTables]

theorem documentsTables_append
    (generation : Nat)
    (first second : List DocumentSymbols) :
    documentsTables unicode generation (first ++ second) =
      (documentsTables unicode generation first).append
        (documentsTables unicode generation second) := by
  simp [documentsTables, CatalogTables.append]

variable {generation : Nat}
variable {uri : String}
variable {document : DocumentSymbols}

/- A document's rows carry its URI and no other. -/
theorem lacks_documentTables
    (hUri : document.uri ≠ uri) :
    (documentTables unicode generation document).Lacks
      uri where
  documents := by
    intro row hRow
    rw [List.mem_singleton.mp hRow]
    exact hUri
  symbols := by
    intro row hRow
    rcases List.mem_map.mp hRow with ⟨entry, _, rfl⟩
    exact hUri
  exports := by
    intro row hRow
    rcases List.mem_map.mp hRow with ⟨entry, _, rfl⟩
    exact hUri
  occurrences := by
    intro row hRow
    rcases List.mem_map.mp hRow with ⟨entry, _, rfl⟩
    exact hUri
  identities := by
    intro row hRow
    rcases List.mem_map.mp hRow with ⟨entry, _, rfl⟩
    exact hUri
  aliases := by
    intro row hRow
    rcases List.mem_map.mp hRow with ⟨entry, _, rfl⟩
    exact hUri
  bindings := by
    intro row hRow
    rcases List.mem_map.mp hRow with ⟨entry, _, rfl⟩
    exact hUri
  heritage := by
    intro row hRow
    unfold documentTables documentHeritageRows at hRow
    cases hFacts : document.classHeritage with
    | none =>
      simp only [hFacts] at hRow
      cases hRow
    | some facts =>
      simp only [hFacts] at hRow
      rcases List.mem_map.mp hRow with ⟨entry, _, rfl⟩
      exact hUri

variable {documents : List DocumentSymbols}

theorem lacks_documentsTables
    (hUri : ∀ document ∈ documents, document.uri ≠ uri) :
    (documentsTables unicode generation documents).Lacks
      uri := by
  induction documents with
  | nil => exact CatalogTables.lacks_empty uri
  | cons document documents ih =>
    have hCons :
        document :: documents = [document] ++ documents :=
      rfl
    rw [hCons, documentsTables_append, documentsTables_singleton]
    exact
      (lacks_documentTables unicode
        (hUri document List.mem_cons_self)).append
      (ih fun other hOther =>
        hUri other (List.mem_cons_of_mem _ hOther))

----------
-- Documents That Are New to the Tables
----------

/- Distinct documents none of which has a row yet. -/
structure Insertable
    (tables : CatalogTables)
    (documents : List DocumentSymbols) : Prop where
  fresh : ∀ document ∈ documents, tables.Lacks document.uri
  distinct : (documents.map (·.uri)).Nodup

theorem Insertable.sameRows
    {tables tables' : CatalogTables}
    (hSame : tables.SameRows tables')
    (hInsertable : Insertable tables documents) :
    Insertable tables' documents :=
  ⟨fun document hDocument =>
    (hInsertable.fresh document hDocument).of_sameRows hSame,
    hInsertable.distinct⟩

variable {tables : CatalogTables}
variable {first second : List DocumentSymbols}

theorem Insertable.left
    (hInsertable : Insertable tables (first ++ second)) :
    Insertable tables first := by
  refine ⟨?_, ?_⟩
  · intro document hDocument
    exact
      hInsertable.fresh document
        (List.mem_append_left _ hDocument)
  · have hNodup := hInsertable.distinct
    rw [List.map_append] at hNodup
    exact (List.nodup_append.mp hNodup).1

/- What follows stays new when what comes first is in. -/
theorem Insertable.right
    (generation : Nat)
    (hInsertable : Insertable tables (first ++ second)) :
    Insertable
      (tables.append
        (documentsTables unicode generation first))
      second := by
  have hNodup := hInsertable.distinct
  rw [List.map_append] at hNodup
  rcases List.nodup_append.mp hNodup with
    ⟨_, hSecond, hDisjoint⟩
  refine ⟨?_, hSecond⟩
  intro document hDocument
  refine
    (hInsertable.fresh document
      (List.mem_append_right _ hDocument)).append
    (lacks_documentsTables unicode ?_)
  intro other hOther
  exact
    hDisjoint _ (List.mem_map_of_mem hOther) _
      (List.mem_map_of_mem hDocument)

/-
  Rows of distinct new documents go in exactly when the keys
  within each document differ.
-/
theorem insertRows_flatMap_iff
    {Row Key : Type}
    [DecidableEq Key]
    (key : Row → Key)
    (uriOf : Row → String)
    (hKey :
      ∀ row row',
        key row = key row' → uriOf row = uriOf row')
    (rows : DocumentSymbols → List Row)
    (hRows :
      ∀ document, ∀ row ∈ rows document,
        uriOf row = document.uri)
    {table table' : List Row}
    (hFresh :
      ∀ document ∈ documents, ∀ old ∈ table,
        uriOf old ≠ document.uri)
    (hDistinct : (documents.map (·.uri)).Nodup) :
    insertRows key (documents.flatMap rows) table =
        Except.ok table' ↔
      (∀ document ∈ documents,
        ((rows document).map key).Nodup) ∧
        table' = table ++ documents.flatMap rows := by
  rw [insertRows_eq_ok_iff]
  refine and_congr_left fun _ => ?_
  rw [List.map_flatMap, List.nodup_flatMap]
  have hApart :
      documents.Pairwise
        (Function.onFun List.Disjoint
          fun document => (rows document).map key) := by
    have hPairs := List.pairwise_map.mp hDistinct
    refine hPairs.imp ?_
    intro first second hUri shared hFirst hSecond
    rcases List.mem_map.mp hFirst with ⟨row, hRow, rfl⟩
    rcases List.mem_map.mp hSecond with
      ⟨row', hRow', hSame⟩
    apply hUri
    rw [← hRows first row hRow, ← hRows second row' hRow']
    exact (hKey row' row hSame).symm
  have hNew :
      ∀ old ∈ table, ∀ row ∈ documents.flatMap rows,
        key old ≠ key row := by
    intro old hOld row hRow hSame
    rcases List.mem_flatMap.mp hRow with
      ⟨document, hDocument, hMem⟩
    apply hFresh document hDocument old hOld
    rw [hKey old row hSame, hRows document row hMem]
  exact ⟨fun h => h.1.1, fun h => ⟨⟨h, hApart⟩, hNew⟩⟩

variable {α Row : Type}

/- Numbered rows of one document have different keys. -/
theorem nodup_zipIdx_key
    (key : Row → String × Nat)
    (row : α × Nat → Row)
    (hKey : ∀ entry, key (row entry) = (uri, entry.2))
    (items : List α)
    (offset : Nat) :
    (((items.zipIdx offset).map row).map key).Nodup := by
  rw [List.map_map]
  have hOrdinals :
      ((items.zipIdx offset).map Prod.snd).Nodup := by
    rw [List.zipIdx_map_snd]
    exact List.nodup_range'
  have hPairs := List.pairwise_map.mp hOrdinals
  refine List.pairwise_map.mpr (hPairs.imp ?_)
  intro first second hNe hSame
  simp only [Function.comp_apply, hKey] at hSame
  injection hSame with _ hOrdinal
  exact hNe hOrdinal

/- Numbered rows of new documents always go in. -/
theorem insertRows_numbered
    (key : Row → String × Nat)
    (items : DocumentSymbols → List α)
    (row : DocumentSymbols → α × Nat → Row)
    (hKey :
      ∀ document entry,
        key (row document entry) = (document.uri, entry.2))
    {table : List Row}
    (hFresh :
      ∀ document ∈ documents, ∀ old ∈ table,
        (key old).1 ≠ document.uri)
    (hDistinct : (documents.map (·.uri)).Nodup) :
    insertRows key
        (documents.flatMap fun document =>
          ((items document).zipIdx 0).map (row document))
        table =
      Except.ok
        (table ++
          documents.flatMap fun document =>
            ((items document).zipIdx 0).map
              (row document)) := by
  refine
    (insertRows_flatMap_iff key (fun row => (key row).1) ?_
      _ ?_ hFresh hDistinct).mpr ⟨?_, rfl⟩
  · intro first second hSame
    rw [hSame]
  · intro document other hOther
    rcases List.mem_map.mp hOther with ⟨entry, _, rfl⟩
    exact congrArg Prod.fst (hKey document entry)
  · intro document _
    exact
      nodup_zipIdx_key key (row document) (hKey document)
        (items document) 0

----------
-- What the Insertions Do
----------

/- The only constraint that a document itself can break. -/
def ExportsDistinct (document : DocumentSymbols) : Prop :=
  (document.exports.map (·.ordinal)).Nodup

theorem insertCatalogDocuments_eq
    (hNew : Insertable tables documents) :
    insertCatalogDocuments generation documents tables =
      Except.ok
        { tables with
          documents :=
            tables.documents ++
              documents.map (documentRow generation) } := by
  have hRows :
      insertRows DocumentRow.uri
          (documents.map (documentRow generation))
          tables.documents =
        Except.ok
          (tables.documents ++
            documents.map (documentRow generation)) := by
    refine insertRows_eq_ok_iff.mpr ⟨⟨?_, ?_⟩, rfl⟩
    · rw [List.map_map]
      exact hNew.distinct
    · intro old hOld row hRow
      rcases List.mem_map.mp hRow with
        ⟨document, hDocument, rfl⟩
      exact (hNew.fresh document hDocument).documents old hOld
  unfold insertCatalogDocuments
  rw [chunkLoop_of_additive
    (additive_insertRows DocumentRow.uri), hRows]
  rfl

variable {offset : Nat}

/- The buffer of 256 rows is invisible. -/
theorem insertSymbolDocumentsAt_iff
    {tables tables' : CatalogTables} :
    insertSymbolDocumentsAt unicode offset documents tables =
        Except.ok tables' ↔
      ∃ rows,
        insertRows SymbolRow.key
            (documents.flatMap (symbolRows unicode offset))
            tables.symbols = Except.ok rows ∧
          tables' = { tables with symbols := rows } := by
  have hBuffer :=
    buffered_of_additive (additive_insertRows SymbolRow.key)
      256 [] (documents.flatMap (symbolRows unicode offset))
      tables.symbols
  rw [List.nil_append] at hBuffer
  unfold insertSymbolDocumentsAt
  rw [← hBuffer]
  constructor
  · intro hInsert
    rcases bind_eq_ok.mp hInsert with ⟨rest, hRest, hFlush⟩
    rcases bind_eq_ok.mp hFlush with ⟨rows, hRows, hPure⟩
    refine ⟨rows, bind_eq_ok.mpr ⟨rest, hRest, hRows⟩, ?_⟩
    exact (pure_eq_ok.mp hPure).symm
  · rintro ⟨rows, hInsert, rfl⟩
    rcases bind_eq_ok.mp hInsert with ⟨rest, hRest, hRows⟩
    exact
      bind_eq_ok.mpr
        ⟨rest, hRest, bind_eq_ok.mpr ⟨rows, hRows, rfl⟩⟩

variable {base : CatalogTables}

/-
  The insertions into the other tables do not matter to one
  table, so each is described from the tables `base` that
  the whole batch starts with.
-/
theorem insertSymbolDocuments_eq
    (hNew : Insertable base documents)
    (hTable : tables.symbols = base.symbols) :
    insertSymbolDocuments unicode documents tables =
      Except.ok
        { tables with
          symbols :=
            base.symbols ++
              documents.flatMap (symbolRows unicode 0) } := by
  have hRows :=
    insertRows_numbered SymbolRow.key (·.symbols)
      (fun document => symbolRow unicode document.uri)
      (fun _ _ => rfl)
      (fun document hDocument =>
        (hNew.fresh document hDocument).symbols)
      hNew.distinct
  rw [← hTable] at hRows ⊢
  exact (insertSymbolDocumentsAt_iff unicode).mpr ⟨_, hRows, rfl⟩

theorem nodup_exportKeys_iff
    {document : DocumentSymbols} :
    ((exportRows unicode generation document).map
        ExportRow.key).Nodup ↔
      ExportsDistinct document := by
  have hMap :
      (exportRows unicode generation document).map
          ExportRow.key =
        (document.exports.map (·.ordinal)).map
          (Prod.mk document.uri) := by
    simp [exportRows, ExportRow.key, exportRow]
  rw [hMap]
  exact
    List.nodup_map_iff fun first second hPair =>
      (Prod.mk.inj hPair).2

theorem insertExportDocuments_iff
    {base tables tables' : CatalogTables}
    (hNew : Insertable base documents)
    (hTable : tables.exports = base.exports) :
    insertExportDocuments unicode generation documents
        tables = Except.ok tables' ↔
      (∀ document ∈ documents, ExportsDistinct document) ∧
        tables' =
          { tables with
            exports :=
              base.exports ++
                documents.flatMap
                  (exportRows unicode generation) } := by
  have hRows :
      ∀ rows,
        insertRows ExportRow.key
            (documents.flatMap (exportRows unicode generation))
            base.exports = Except.ok rows ↔
          (∀ document ∈ documents,
            ((exportRows unicode generation document).map
              ExportRow.key).Nodup) ∧
            rows =
              base.exports ++
                documents.flatMap
                  (exportRows unicode generation) := by
    intro rows
    refine
      insertRows_flatMap_iff ExportRow.key
        ExportRow.documentUri ?_
        (exportRows unicode generation) ?_ ?_
        hNew.distinct
    · intro row row' hSame
      exact (Prod.mk.inj hSame).1
    · intro document row hRow
      rcases List.mem_map.mp hRow with ⟨entry, _, rfl⟩
      rfl
    · intro document hDocument
      exact (hNew.fresh document hDocument).exports
  unfold insertExportDocuments
  rw [bind_eq_ok, hTable]
  constructor
  · rintro ⟨rows, hInsert, hPure⟩
    rcases (hRows rows).mp hInsert with ⟨hDistinct, rfl⟩
    refine ⟨?_, (pure_eq_ok.mp hPure).symm⟩
    intro document hDocument
    exact
      (nodup_exportKeys_iff unicode).mp
        (hDistinct document hDocument)
  · rintro ⟨hDistinct, rfl⟩
    refine ⟨_, (hRows _).mpr ⟨?_, rfl⟩, rfl⟩
    intro document hDocument
    exact
      (nodup_exportKeys_iff unicode).mpr
        (hDistinct document hDocument)

/- The updates of one document row. -/
def settleDocument
    (document : DocumentSymbols)
    (rows : List DocumentRow) : List DocumentRow :=
  let supported :=
    updateDocument document.uri (setSourceSupported document)
      rows
  match document.classHeritage with
  | none => supported
  | some facts =>
      updateDocument document.uri
        (setLexicallyComplete facts) supported

theorem insertHeritageDocument_iff
    {tables tables' : CatalogTables} :
    insertHeritageDocument offset tables document =
        Except.ok tables' ↔
      ∃ rows,
        insertRows HeritageRow.key
            (documentHeritageRows offset document)
            tables.heritage = Except.ok rows ∧
          tables' =
            { tables with
              documents :=
                settleDocument document tables.documents
              heritage := rows } := by
  unfold insertHeritageDocument documentHeritageRows
    settleDocument
  cases document.classHeritage with
  | none =>
    constructor
    · intro hInsert
      injection hInsert with hTables
      exact ⟨tables.heritage, rfl, hTables.symm⟩
    · rintro ⟨rows, hRows, rfl⟩
      injection hRows with hSame
      rw [← hSame]
  | some facts =>
    rw [bind_eq_ok]
    refine exists_congr fun rows => ?_
    refine and_congr_right fun _ => ?_
    rw [pure_eq_ok]
    exact eq_comm

theorem insertHeritageDocuments_iff
    {tables tables' : CatalogTables} :
    insertHeritageDocuments documents tables =
        Except.ok tables' ↔
      ∃ rows,
        insertRows HeritageRow.key
            (documents.flatMap (documentHeritageRows 0))
            tables.heritage = Except.ok rows ∧
          tables' =
            { tables with
              documents :=
                documents.foldl
                  (fun rows document =>
                    settleDocument document rows)
                  tables.documents
              heritage := rows } := by
  induction documents generalizing tables with
  | nil =>
    constructor
    · intro hInsert
      injection hInsert with hTables
      exact ⟨tables.heritage, rfl, hTables.symm⟩
    · rintro ⟨rows, hRows, rfl⟩
      injection hRows with hSame
      rw [← hSame]
      rfl
  | cons document documents ih =>
    have hAppend :=
      (additive_insertRows HeritageRow.key).append 0
        (documentHeritageRows 0 document)
        (documents.flatMap (documentHeritageRows 0))
        tables.heritage
    have hFold :
        insertHeritageDocuments (document :: documents)
            tables =
          (insertHeritageDocument 0 tables document >>=
            insertHeritageDocuments documents) :=
      List.foldlM_cons
    rw [hFold, bind_eq_ok, List.flatMap_cons, hAppend]
    constructor
    · rintro ⟨middle, hFirst, hRest⟩
      rcases insertHeritageDocument_iff.mp hFirst with
        ⟨rows, hRows, rfl⟩
      rcases ih.mp hRest with ⟨rows', hRows', rfl⟩
      exact ⟨rows', bind_eq_ok.mpr ⟨rows, hRows, hRows'⟩, rfl⟩
    · rintro ⟨rows', hBoth, rfl⟩
      rcases bind_eq_ok.mp hBoth with ⟨rows, hRows, hRows'⟩
      exact
        ⟨_, insertHeritageDocument_iff.mpr
            ⟨rows, hRows, rfl⟩,
          ih.mpr ⟨rows', hRows', rfl⟩⟩

variable {rows : List DocumentRow}

theorem updateDocument_of_lacks
    {update : DocumentRow → DocumentRow}
    (hLacks : ∀ row ∈ rows, row.uri ≠ uri) :
    updateDocument uri update rows = rows := by
  unfold updateDocument
  conv_rhs => rw [← List.map_id rows]
  refine List.map_congr_left fun row hRow => ?_
  rw [if_neg (hLacks row hRow)]
  rfl

theorem settleDocument_append
    (document : DocumentSymbols)
    (first second : List DocumentRow) :
    settleDocument document (first ++ second) =
      settleDocument document first ++
        settleDocument document second := by
  unfold settleDocument updateDocument
  cases document.classHeritage <;> simp

theorem settleDocument_of_lacks
    (hLacks : ∀ row ∈ rows, row.uri ≠ document.uri) :
    settleDocument document rows = rows := by
  unfold settleDocument
  cases document.classHeritage with
  | none => exact updateDocument_of_lacks hLacks
  | some facts =>
    simp only [updateDocument_of_lacks hLacks]

theorem settleDocument_own
    (generation : Nat)
    (document : DocumentSymbols) :
    settleDocument document
        [documentRow generation document] =
      [settledDocumentRow generation document] := by
  unfold settleDocument settledDocumentRow
  cases hFacts : document.classHeritage with
  | none =>
    simp [updateDocument, documentRow, setSourceSupported]
  | some facts =>
    simp [updateDocument, documentRow, setSourceSupported,
      setLexicallyComplete]

theorem settleDocument_settled
    (generation : Nat)
    (document : DocumentSymbols) :
    settleDocument document
        [settledDocumentRow generation document] =
      [settledDocumentRow generation document] := by
  unfold settleDocument settledDocumentRow
  cases hFacts : document.classHeritage with
  | none => simp [updateDocument, setSourceSupported]
  | some facts =>
    simp [updateDocument, setSourceSupported,
      setLexicallyComplete]

/- Every new row gets its own document's updates. -/
theorem settleDocuments
    {old : List DocumentRow}
    (hFresh :
      ∀ document ∈ documents, ∀ row ∈ old,
        row.uri ≠ document.uri)
    (hDistinct : (documents.map (·.uri)).Nodup) :
    documents.foldl
        (fun rows document => settleDocument document rows)
        (old ++ documents.map (documentRow generation)) =
      old ++ documents.map (settledDocumentRow generation) := by
  induction documents generalizing old with
  | nil => rfl
  | cons document documents ih =>
    rcases List.nodup_cons.mp hDistinct with
      ⟨hHead, hTail⟩
    have hApart :
        ∀ other ∈ documents, other.uri ≠ document.uri :=
      fun other hOther hUri =>
        hHead (List.mem_map.mpr ⟨other, hOther, hUri⟩)
    have hOthers :
        ∀ row ∈ documents.map (documentRow generation),
          row.uri ≠ document.uri := by
      intro row hRow
      rcases List.mem_map.mp hRow with
        ⟨other, hOther, rfl⟩
      exact hApart other hOther
    have hSettled :
        settleDocument document
            (old ++
              (document :: documents).map
                (documentRow generation)) =
          (old ++ [settledDocumentRow generation document])
            ++ documents.map (documentRow generation) := by
      rw [settleDocument_append,
        settleDocument_of_lacks
          (hFresh document List.mem_cons_self),
        List.map_cons, ← List.singleton_append,
        settleDocument_append, settleDocument_own,
        settleDocument_of_lacks hOthers,
        List.append_assoc]
    rw [List.foldl_cons, hSettled, ih ?_ hTail]
    · simp
    · intro other hOther row hRow
      rcases List.mem_append.mp hRow with hOld | hNew
      · exact
          hFresh other (List.mem_cons_of_mem _ hOther) row hOld
      · rw [List.mem_singleton.mp hNew]
        exact (hApart other hOther).symm

theorem additive_insertIdentityValues
    (ignoreConflicts : Bool) :
    Additive fun _ =>
      insertIdentityValues ignoreConflicts := by
  cases ignoreConflicts with
  | false => exact additive_insertRows id
  | true =>
    refine ⟨fun _ _ => rfl, ?_⟩
    intro offset first second table
    unfold insertIdentityValues
    simp only [if_true]
    rw [insertRowsIgnoring_append]
    rfl

/-
  What a reference insertion amounts to, given the identities
  that are already in the buffer.
-/
def ReferencesInserted
    (offset : Nat)
    (ignoreConflicts : Bool)
    (pending : List IdentityRow)
    (documents : List DocumentSymbols)
    (tables tables' : CatalogTables) : Prop :=
  ∃ occurrences identities aliases bindings,
    insertRows OccurrenceRow.key
        (documents.flatMap (occurrenceRows offset))
        tables.occurrences = Except.ok occurrences ∧
      insertIdentityValues ignoreConflicts
          (pending ++
            documents.flatMap fun document =>
              identityRows document.uri document.occurrences)
          tables.identities = Except.ok identities ∧
      insertRows AliasRow.key
          (documents.flatMap (aliasRows offset))
          tables.aliases = Except.ok aliases ∧
      insertRows BindingRow.key
          (documents.flatMap (bindingRows offset))
          tables.bindings = Except.ok bindings ∧
      tables' =
        { tables with
          occurrences := occurrences
          identities := identities
          aliases := aliases
          bindings := bindings }

variable {ignoreConflicts : Bool}

theorem insertReferenceDocument_iff
    {pending pending' : List IdentityRow}
    {tables tables' : CatalogTables}
    {document : DocumentSymbols} :
    insertReferenceDocument offset ignoreConflicts
        (pending, tables) document =
          Except.ok (pending', tables') ↔
      ∃ occurrences identities aliases bindings,
        insertRows OccurrenceRow.key
            (occurrenceRows offset document)
            tables.occurrences = Except.ok occurrences ∧
          buffered 256 (insertIdentityValues ignoreConflicts)
              pending
              (identityRows document.uri
                document.occurrences)
              tables.identities =
            Except.ok (pending', identities) ∧
          insertRows AliasRow.key (aliasRows offset document)
              tables.aliases = Except.ok aliases ∧
          insertRows BindingRow.key
              (bindingRows offset document)
              tables.bindings = Except.ok bindings ∧
          tables' =
            { tables with
              occurrences := occurrences
              identities := identities
              aliases := aliases
              bindings := bindings } := by
  unfold insertReferenceDocument
  constructor
  · intro hInsert
    rcases bind_eq_ok.mp hInsert with
      ⟨occurrences, hOccurrences, hInsert⟩
    rcases bind_eq_ok.mp hInsert with
      ⟨⟨rest, identities⟩, hIdentities, hInsert⟩
    rcases bind_eq_ok.mp hInsert with
      ⟨aliases, hAliases, hInsert⟩
    rcases bind_eq_ok.mp hInsert with
      ⟨bindings, hBindings, hInsert⟩
    rcases Prod.mk.inj (pure_eq_ok.mp hInsert) with
      ⟨rfl, rfl⟩
    exact
      ⟨occurrences, identities, aliases, bindings,
        hOccurrences, hIdentities, hAliases, hBindings, rfl⟩
  · rintro
      ⟨occurrences, identities, aliases, bindings,
        hOccurrences, hIdentities, hAliases, hBindings, rfl⟩
    exact
      bind_eq_ok.mpr ⟨occurrences, hOccurrences,
        bind_eq_ok.mpr ⟨(pending', identities), hIdentities,
          bind_eq_ok.mpr ⟨aliases, hAliases,
            bind_eq_ok.mpr ⟨bindings, hBindings, rfl⟩⟩⟩⟩

/- The buffer of identities is invisible across documents. -/
theorem referenceLoop_iff
    {pending : List IdentityRow}
    {tables tables' : CatalogTables} :
    (documents.foldlM
          (insertReferenceDocument offset ignoreConflicts)
          (pending, tables) >>=
        finishReferences ignoreConflicts) =
          Except.ok tables' ↔
      ReferencesInserted offset ignoreConflicts pending
        documents tables tables' := by
  have hValues := additive_insertIdentityValues ignoreConflicts
  induction documents generalizing pending tables with
  | nil =>
    unfold ReferencesInserted
    have hStart :
        (([] : List DocumentSymbols).foldlM
              (insertReferenceDocument offset ignoreConflicts)
              (pending, tables) >>=
            finishReferences ignoreConflicts) =
          finishReferences ignoreConflicts (pending, tables) :=
      rfl
    rw [hStart]
    unfold finishReferences
    rw [flushRest_eq hValues, bind_eq_ok]
    simp only [List.flatMap_nil, List.append_nil]
    constructor
    · rintro ⟨identities, hIdentities, hPure⟩
      exact
        ⟨tables.occurrences, identities, tables.aliases,
          tables.bindings, rfl, hIdentities, rfl, rfl,
          (pure_eq_ok.mp hPure).symm⟩
    · rintro
        ⟨occurrences, identities, aliases, bindings,
          hOccurrences, hIdentities, hAliases, hBindings,
          rfl⟩
      injection hOccurrences with hOccurrences
      injection hAliases with hAliases
      injection hBindings with hBindings
      refine ⟨identities, hIdentities, ?_⟩
      rw [← hOccurrences, ← hAliases, ← hBindings]
      rfl
  | cons document documents ih =>
    have hOccurrences :=
      (additive_insertRows OccurrenceRow.key).append 0
        (occurrenceRows offset document)
        (documents.flatMap (occurrenceRows offset))
        tables.occurrences
    have hAliases :=
      (additive_insertRows AliasRow.key).append 0
        (aliasRows offset document)
        (documents.flatMap (aliasRows offset))
        tables.aliases
    have hBindings :=
      (additive_insertRows BindingRow.key).append 0
        (bindingRows offset document)
        (documents.flatMap (bindingRows offset))
        tables.bindings
    have hIdentities :=
      hValues.append 0
        (pending ++
          identityRows document.uri document.occurrences)
        (documents.flatMap fun document =>
          identityRows document.uri document.occurrences)
        tables.identities
    unfold ReferencesInserted
    rw [List.foldlM_cons, bind_assoc, bind_eq_ok]
    simp only [List.flatMap_cons, ← List.append_assoc]
    rw [hOccurrences, hAliases, hBindings, hIdentities]
    constructor
    · rintro ⟨⟨pending', middle⟩, hFirst, hRest⟩
      rcases insertReferenceDocument_iff.mp hFirst with
        ⟨occurrences, identities, aliases, bindings,
          hOcc, hIds, hAls, hBinds, rfl⟩
      rcases ih.mp hRest with
        ⟨occurrences', identities', aliases', bindings',
          hOcc', hIds', hAls', hBinds', rfl⟩
      refine
        ⟨occurrences', identities', aliases', bindings',
          bind_eq_ok.mpr ⟨occurrences, hOcc, hOcc'⟩, ?_,
          bind_eq_ok.mpr ⟨aliases, hAls, hAls'⟩,
          bind_eq_ok.mpr ⟨bindings, hBinds, hBinds'⟩, rfl⟩
      rw [flush_of_buffered hValues hIds]
      have hRejoin :=
        hValues.append 0 pending'
          (documents.flatMap fun document =>
            identityRows document.uri document.occurrences)
          identities
      rw [← hRejoin]
      exact hIds'
    · rintro
        ⟨occurrences', identities', aliases', bindings',
          hOcc', hIds', hAls', hBinds', rfl⟩
      rcases bind_eq_ok.mp hOcc' with
        ⟨occurrences, hOcc, hOcc'⟩
      rcases bind_eq_ok.mp hAls' with
        ⟨aliases, hAls, hAls'⟩
      rcases bind_eq_ok.mp hBinds' with
        ⟨bindings, hBinds, hBinds'⟩
      rcases bind_eq_ok.mp hIds' with
        ⟨flushed, hFlushed, hIds'⟩
      have hBuffer :=
        buffered_of_additive hValues 256 pending
          (identityRows document.uri document.occurrences)
          tables.identities
      rw [hFlushed] at hBuffer
      rcases bind_eq_ok.mp hBuffer with
        ⟨⟨pending', identities⟩, hIds, hFlush⟩
      rw [flushRest_eq hValues] at hFlush
      refine
        ⟨_, insertReferenceDocument_iff.mpr
          ⟨occurrences, identities, aliases, bindings,
            hOcc, hIds, hAls, hBinds, rfl⟩,
          ih.mpr
            ⟨occurrences', identities', aliases',
              bindings', hOcc', ?_, hAls', hBinds',
              rfl⟩⟩
      exact
        (hValues.append 0 pending' _ identities).trans
          (bind_eq_ok.mpr ⟨flushed, hFlush, hIds'⟩)

theorem insertReferenceDocumentsAt_iff
    {tables tables' : CatalogTables} :
    insertReferenceDocumentsAt offset ignoreConflicts
        documents tables = Except.ok tables' ↔
      ReferencesInserted offset ignoreConflicts []
        documents tables tables' :=
  referenceLoop_iff

theorem mem_identityRows
    {occurrences : List ReferenceOccurrence}
    {row : IdentityRow} :
    row ∈ identityRows uri occurrences ↔
      ∃ occurrence ∈ occurrences,
        identityRow uri (identityKey occurrence) = row := by
  unfold identityRows
  rw [List.mem_map]
  constructor
  · rintro ⟨key, hKey, rfl⟩
    rcases List.mem_map.mp (OrderedSet.mem_ofList.mp hKey)
      with ⟨occurrence, hOccurrence, rfl⟩
    exact ⟨occurrence, hOccurrence, rfl⟩
  · rintro ⟨occurrence, hOccurrence, rfl⟩
    exact
      ⟨identityKey occurrence,
        OrderedSet.mem_ofList.mpr
          (List.mem_map_of_mem hOccurrence), rfl⟩

theorem nodup_identityRows
    (uri : String)
    (occurrences : List ReferenceOccurrence) :
    (identityRows uri occurrences).Nodup := by
  unfold identityRows
  refine List.Nodup.map ?_ ?_
  · intro first second hSame
    injection hSame with _ hName hQualification hQualifier
    exact Prod.ext hName (Prod.ext hQualification hQualifier)
  · exact
      (OrderedSet.ofList
        (occurrences.map identityKey)).sorted.imp
        fun hLt => hLt.ne

theorem insertReferenceDocuments_eq
    (hNew : Insertable base documents)
    (hOccurrences : tables.occurrences = base.occurrences)
    (hIdentities : tables.identities = base.identities)
    (hAliases : tables.aliases = base.aliases)
    (hBindings : tables.bindings = base.bindings) :
    insertReferenceDocuments documents tables =
      Except.ok
        { tables with
          occurrences :=
            base.occurrences ++
              documents.flatMap (occurrenceRows 0)
          identities :=
            base.identities ++
              documents.flatMap fun document =>
                identityRows document.uri document.occurrences
          aliases :=
            base.aliases ++ documents.flatMap (aliasRows 0)
          bindings :=
            base.bindings ++
              documents.flatMap (bindingRows 0) } := by
  have hOccurrenceRows :=
    insertRows_numbered OccurrenceRow.key (·.occurrences)
      (fun document => occurrenceRow document.uri)
      (fun _ _ => rfl)
      (fun document hDocument =>
        (hNew.fresh document hDocument).occurrences)
      hNew.distinct
  have hAliasRows :=
    insertRows_numbered AliasRow.key (·.aliases)
      (fun document => aliasRow document.uri)
      (fun _ _ => rfl)
      (fun document hDocument =>
        (hNew.fresh document hDocument).aliases)
      hNew.distinct
  have hBindingRows :=
    insertRows_numbered BindingRow.key (·.bindings)
      (fun document => bindingRow document.uri)
      (fun _ _ => rfl)
      (fun document hDocument =>
        (hNew.fresh document hDocument).bindings)
      hNew.distinct
  rw [← hOccurrences] at hOccurrenceRows ⊢
  rw [← hAliases] at hAliasRows ⊢
  rw [← hBindings] at hBindingRows ⊢
  refine
    insertReferenceDocumentsAt_iff.mpr
      ⟨_, _, _, _, hOccurrenceRows, ?_, hAliasRows,
        hBindingRows, rfl⟩
  rw [hIdentities]
  refine
    (insertRows_flatMap_iff id IdentityRow.documentUri ?_
      (fun document =>
        identityRows document.uri document.occurrences)
      ?_ ?_ hNew.distinct).mpr ⟨?_, rfl⟩
  · intro row row' hSame
    exact congrArg IdentityRow.documentUri hSame
  · intro document row hRow
    rcases mem_identityRows.mp hRow with ⟨occurrence, _, rfl⟩
    rfl
  · intro document hDocument
    exact (hNew.fresh document hDocument).identities
  · intro document _
    rw [List.map_id]
    exact nodup_identityRows _ _

/- The classes that a document records. -/
def heritageClasses
    (document : DocumentSymbols) :
    List ClassHeritageDeclaration :=
  match document.classHeritage with
  | none => []
  | some facts => facts.classes

theorem documentHeritageRows_eq
    (offset : Nat)
    (document : DocumentSymbols) :
    documentHeritageRows offset document =
      ((heritageClasses document).zipIdx offset).map
        (heritageRow document.uri
          (directExports document)) := by
  unfold documentHeritageRows heritageClasses
  cases document.classHeritage <;> rfl

/- After the document rows of `documents` were inserted. -/
theorem insertHeritageDocuments_eq
    (hNew : Insertable base documents)
    (hDocuments :
      tables.documents =
        base.documents ++
          documents.map (documentRow generation))
    (hHeritage : tables.heritage = base.heritage) :
    insertHeritageDocuments documents tables =
      Except.ok
        { tables with
          documents :=
            base.documents ++
              documents.map (settledDocumentRow generation)
          heritage :=
            base.heritage ++
              documents.flatMap (documentHeritageRows 0) } := by
  have hRows :=
    insertRows_numbered HeritageRow.key heritageClasses
      (fun document =>
        heritageRow document.uri (directExports document))
      (fun _ _ => rfl)
      (fun document hDocument =>
        (hNew.fresh document hDocument).heritage)
      hNew.distinct
  refine
    insertHeritageDocuments_iff.mpr
      ⟨base.heritage ++
        documents.flatMap (documentHeritageRows 0), ?_, ?_⟩
  · simp only [← documentHeritageRows_eq] at hRows
    rw [hHeritage]
    exact hRows
  · rw [hDocuments,
      settleDocuments
        (fun document hDocument =>
          (hNew.fresh document hDocument).documents)
        hNew.distinct]

end Rows

end Store

end ArktsServer
