import ArktsServer.Core.WorkspaceIndex
import ArktsServer.Store.CatalogInsert

/-
  One index database and the incremental transaction on it:
  `SqliteStore::apply_batch` removes and replaces documents,
  records rejections and moves the committed generation, all
  or nothing.

  Key definitions include:
    * `CatalogDatabase`
    * `validateReplacement`, `sqliteGeneration`
    * `deleteDocument`, `replaceDocument`
    * `applyBatch`

  Correctness is proven by:
    * `documentGeneration_eq`
    * `insertDocument_iff`
-/

----------
-- Databases
----------

namespace ArktsServer

namespace Store

open Chunking

/- The content of one database file. -/
structure CatalogDatabase where
  tables : CatalogTables
  rejected : List String
  committedGeneration : Nat
deriving DecidableEq

namespace CatalogDatabase

/- A database that was just created. -/
def new : CatalogDatabase where
  tables := CatalogTables.empty
  rejected := []
  committedGeneration := 0

end CatalogDatabase

def sqliteGeneration
    (generation : Nat) : Except StoreError Nat :=
  if generation < 2 ^ 63 then
    Except.ok generation
  else
    Except.error
      ⟨.invalidGeneration,
        "generation " ++ toString generation ++
          " exceeds SQLite integer range"⟩

theorem sqliteGeneration_eq_ok
    {generation result : Nat} :
    sqliteGeneration generation = Except.ok result ↔
      generation < 2 ^ 63 ∧ result = generation := by
  unfold sqliteGeneration
  by_cases hBound : generation < 2 ^ 63
  · rw [if_pos hBound]
    constructor
    · intro hOk
      injection hOk with hResult
      exact ⟨hBound, hResult.symm⟩
    · rintro ⟨_, rfl⟩
      rfl
  · rw [if_neg hBound]
    constructor
    · intro hOk
      cases hOk
    · rintro ⟨hLess, _⟩
      exact absurd hLess hBound

/- `validate_replacement`, the same check as the core's. -/
def validateReplacement
    (document : DocumentSymbols) : Except StoreError Unit :=
  ensureSymbolUris document

----------
-- Documents
----------

/- `DELETE FROM documents`, which cascades. -/
def deleteDocument
    (uri : String)
    (tables : CatalogTables) : CatalogTables where
  documents := tables.documents.filter (·.uri ≠ uri)
  symbols := tables.symbols.filter (·.documentUri ≠ uri)
  exports := tables.exports.filter (·.documentUri ≠ uri)
  occurrences :=
    tables.occurrences.filter (·.documentUri ≠ uri)
  identities :=
    tables.identities.filter (·.documentUri ≠ uri)
  aliases := tables.aliases.filter (·.documentUri ≠ uri)
  bindings := tables.bindings.filter (·.documentUri ≠ uri)
  heritage := tables.heritage.filter (·.documentUri ≠ uri)

section Transactions

variable (unicode : Unicode)

/- Insert the row of a document and everything it has. -/
def insertDocument
    (generation : Nat)
    (document : DocumentSymbols)
    (tables : CatalogTables) :
    Except StoreError CatalogTables := do
  let rows ←
    insertRows DocumentRow.uri
      [documentRow generation document] tables.documents
  insertDocumentSymbols unicode document
    { tables with documents := rows }

/- Replace one document of a database. -/
def replaceDocument
    (generation : Nat)
    (database : CatalogDatabase)
    (replacement : DocumentSymbols) :
    Except StoreError CatalogDatabase := do
  let tables ←
    insertDocument unicode generation replacement
      (deleteDocument replacement.uri database.tables)
  pure
    { database with
      tables := tables
      rejected :=
        database.rejected.filter (· ≠ replacement.uri) }

def removeDocument
    (database : CatalogDatabase)
    (uri : String) : CatalogDatabase :=
  { database with
    tables := deleteDocument uri database.tables
    rejected := database.rejected.filter (· ≠ uri) }

def rejectDocument
    (database : CatalogDatabase)
    (uri : String) : CatalogDatabase :=
  { database with
    tables := deleteDocument uri database.tables
    rejected :=
      insertRowsIgnoring id [uri] database.rejected }

/- `SELECT uri FROM rejected_documents ORDER BY uri`. -/
def readRejectedDocuments
    (database : CatalogDatabase) : List String :=
  sortedUnique database.rejected

/- The immediate transaction of `apply_batch`. -/
def batchTransaction
    (batch : RefreshBatch)
    (database : CatalogDatabase) :
    Except StoreError (CatalogDatabase × CommitReceipt) := do
  ensureNewerGeneration database.committedGeneration
    batch.generation
  let removed := batch.removedUris.foldl removeDocument database
  let replaced ←
    batch.replacements.foldlM
      (replaceDocument unicode batch.generation) removed
  let rejected :=
    batch.rejectedUris.foldl rejectDocument replaced
  let committed :=
    { rejected with committedGeneration := batch.generation }
  pure
    (committed,
      ⟨batch.generation, readRejectedDocuments committed⟩)

/- The checks before it see the same database here. -/
def applyBatch
    (batch : RefreshBatch)
    (database : CatalogDatabase) :
    Except StoreError (CatalogDatabase × CommitReceipt) := do
  ensureNewerGeneration database.committedGeneration
    batch.generation
  let _ ← sqliteGeneration batch.generation
  batch.replacements.forM validateReplacement
  batchTransaction unicode batch database

----------
-- Inserting One Document
----------

theorem documentGeneration_eq
    {generation : Nat}
    {document : DocumentSymbols}
    {old : List DocumentRow}
    {tables : CatalogTables}
    (hDocuments :
      tables.documents =
        old ++ [documentRow generation document])
    (hOld : ∀ row ∈ old, row.uri ≠ document.uri) :
    documentGeneration document.uri tables =
      Except.ok generation := by
  have hFind :
      tables.documents.find? (·.uri = document.uri) =
        some (documentRow generation document) := by
    rw [hDocuments, List.find?_append]
    have hNone :
        old.find? (·.uri = document.uri) = none := by
      refine List.find?_eq_none.mpr fun row hRow => ?_
      simpa using hOld row hRow
    rw [hNone]
    simp [documentRow]
  unfold documentGeneration
  rw [hFind]
  rfl

/-
  A document that is new to the tables goes in exactly when
  its exports are numbered apart, and adds its own rows.
-/
theorem insertDocument_iff
    {generation : Nat}
    {document : DocumentSymbols}
    {tables tables' : CatalogTables}
    (hLacks : tables.Lacks document.uri) :
    insertDocument unicode generation document tables =
        Except.ok tables' ↔
      ExportsDistinct document ∧
        tables' =
          tables.append
            (documentTables unicode generation document) := by
  have hNew : Insertable tables [document] := by
    refine ⟨?_, List.nodup_singleton _⟩
    intro other hOther
    rw [List.mem_singleton.mp hOther]
    exact hLacks
  have hRow :
      insertRows DocumentRow.uri
          [documentRow generation document]
          tables.documents =
        Except.ok
          (tables.documents ++
            [documentRow generation document]) := by
    refine insertRows_eq_ok_iff.mpr ⟨⟨?_, ?_⟩, rfl⟩
    · exact List.nodup_singleton _
    · intro old hOld row hRow
      rw [List.mem_singleton.mp hRow]
      exact hLacks.documents old hOld
  unfold insertDocument insertDocumentSymbols
  rw [hRow, bind_eq_ok]
  constructor
  · rintro ⟨documents, hDocuments, hInsert⟩
    injection hDocuments with hDocuments
    subst hDocuments
    rw [insertSymbolDocuments_eq unicode hNew (by rfl)] at hInsert
    rcases bind_eq_ok.mp hInsert with
      ⟨symbols, hSymbols, hInsert⟩
    injection hSymbols with hSymbols
    subst hSymbols
    rw [documentGeneration_eq rfl hLacks.documents] at hInsert
    rcases bind_eq_ok.mp hInsert with
      ⟨stored, hStored, hInsert⟩
    injection hStored with hStored
    subst hStored
    rcases bind_eq_ok.mp hInsert with
      ⟨exports, hExports, hInsert⟩
    rcases (insertExportDocuments_iff unicode hNew (by rfl)).mp
        hExports with ⟨hDistinct, rfl⟩
    rw [insertReferenceDocuments_eq hNew (by rfl) (by rfl) (by rfl) (by rfl)]
      at hInsert
    rcases bind_eq_ok.mp hInsert with
      ⟨references, hReferences, hInsert⟩
    injection hReferences with hReferences
    subst hReferences
    rw [insertHeritageDocuments_eq hNew (by rfl) (by rfl)] at hInsert
    injection hInsert with hTables
    refine ⟨hDistinct document (List.mem_singleton_self _), ?_⟩
    rw [← hTables, ← documentsTables_singleton]
    rfl
  · rintro ⟨hDistinct, rfl⟩
    refine ⟨_, rfl, ?_⟩
    rw [insertSymbolDocuments_eq unicode hNew (by rfl)]
    refine bind_eq_ok.mpr ⟨_, rfl, ?_⟩
    rw [documentGeneration_eq rfl hLacks.documents]
    refine bind_eq_ok.mpr ⟨_, rfl, ?_⟩
    refine
      bind_eq_ok.mpr
        ⟨_, (insertExportDocuments_iff unicode hNew (by rfl)).mpr
          ⟨?_, rfl⟩, ?_⟩
    · intro other hOther
      rw [List.mem_singleton.mp hOther]
      exact hDistinct
    · rw [insertReferenceDocuments_eq hNew (by rfl) (by rfl) (by rfl) (by rfl)]
      refine bind_eq_ok.mpr ⟨_, rfl, ?_⟩
      rw [insertHeritageDocuments_eq hNew (by rfl) (by rfl),
        ← documentsTables_singleton]
      rfl

end Transactions

end Store

end ArktsServer
