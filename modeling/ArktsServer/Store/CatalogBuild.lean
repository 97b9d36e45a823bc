import ArktsServer.Core.SharedTypes
import ArktsServer.Store.SqliteStore

/-
  The catalog build: a private database is filled in bounded
  transactions, reporting progress to an observer that may
  cancel, and receives its rejections and its generation
  last.  Documents come as a batch or as a stream; one that
  is too large for a single transaction is split.

  The observer's answers and the state of the write-ahead
  log are not determined by the build.  They are read from
  the build's surroundings, one answer for each call.

  Key definitions include:
    * `Surroundings`, `Writer`, `emit`, `checkpoint`
    * `documentCost`, `batchChunk`
    * `CatalogDocument.write`, `CatalogDocument.rows`
    * `writeDocuments`
    * `consume`, `flush`
    * `finishMetadata`, `validate`
    * `buildCatalog`, `buildCatalogStream`
-/

----------
-- Progress
----------

namespace ArktsServer

namespace Store

open Chunking

/- A row of `PRAGMA wal_checkpoint`. -/
structure WalCheckpoint where
  busy : Int
  wal : Int
  done : Int
deriving DecidableEq

/- The answers that a build gets, call after call. -/
structure Surroundings where
  observe : Nat → CatalogBuildProgress → Bool
  walCheckpoint : Nat → WalCheckpoint

/- A private database while it is written. -/
structure Writer where
  tables : CatalogTables
  progress : CatalogBuildProgress
  calls : Nat
deriving DecidableEq

/- The start of every build. -/
def Writer.new : Writer where
  tables := CatalogTables.empty
  progress := ⟨.writing, 0, 0, 0, 0⟩
  calls := 0

/- `usize::saturating_add`. -/
def saturatingAdd (left right : Nat) : Nat :=
  min (left + right) (2 ^ 64 - 1)

section Build

variable (surroundings : Surroundings)

def emit
    (stage : CatalogStage)
    (writer : Writer) : Except StoreError Writer :=
  let progress := { writer.progress with stage := stage }
  if surroundings.observe writer.calls progress then
    Except.ok
      { writer with
        progress := progress
        calls := writer.calls + 1 }
  else
    Except.error
      ⟨.internal,
        "catalog build cancelled before publication"⟩

def checkpoint
    (writer : Writer) : Except StoreError Writer :=
  let result := surroundings.walCheckpoint writer.calls
  if result.busy ≠ 0 ∨ result.done < result.wal then
    Except.error
      ⟨.incompatible,
        "private catalog checkpoint could not finish"⟩
  else
    Except.ok
      { writer with
        progress :=
          { writer.progress with
            walFrames := result.wal.toNat
            checkpointedFrames := result.done.toNat }
        calls := writer.calls + 1 }

----------
-- Costs
----------

/- The sum of a size over a list. -/
def total {α : Type} (size : α → Nat) (items : List α) : Nat :=
  items.foldr (fun item sum => size item + sum) 0

def optionalLength (text : Option String) : Nat :=
  match text with
  | none => 0
  | some value => byteLength value

def baseLength (base : Option ClassHeritageBase) : Nat :=
  match base with
  | none => 0
  | some value => byteLength value.name

/- The number of rows and the bytes of a document. -/
def documentCost (document : DocumentSymbols) : Nat × Nat :=
  let rows :=
    1 + document.symbols.length + document.exports.length +
      2 * document.occurrences.length +
      document.aliases.length + document.bindings.length +
      (heritageClasses document).length
  let strings :=
    total
        (fun item =>
          byteLength item.name * 3 +
            optionalLength item.container)
        document.symbols +
      total
        (fun item =>
          2 *
            (byteLength item.name +
              optionalLength item.qualifier))
        document.occurrences +
      total
        (fun item =>
          byteLength item.exportedName * 2 +
            optionalLength item.referenceExportName +
            optionalLength item.declarationIdentity +
            optionalLength item.importSpecifier +
            optionalLength item.moduleId +
            optionalLength item.targetScope)
        document.exports +
      total
        (fun item =>
          byteLength item.fromName + byteLength item.toName)
        document.aliases +
      total
        (fun item =>
          byteLength item.name + baseLength item.base)
        (heritageClasses document) +
      total
        (fun item =>
          byteLength item.importedName +
            byteLength item.localName +
            byteLength item.sourceSpecifier)
        document.bindings
  (rows,
    saturatingAdd
      (min (rows * (byteLength document.uri + 128))
        (2 ^ 64 - 1))
      strings)

def maxBatchDocuments : Nat :=
  64

theorem maxBatchDocuments_pos : 0 < maxBatchDocuments := by
  decide

def maxBatchRows : Nat :=
  32768

def maxBatchBytes : Nat :=
  8 * 1024 * 1024

/- One more document would make a batch too large. -/
def overfillsBatch
    (load : Nat × Nat)
    (document : DocumentSymbols) : Bool :=
  let cost := documentCost document
  decide
    (maxBatchRows < saturatingAdd load.1 cost.1 ∨
      maxBatchBytes < saturatingAdd load.2 cost.2)

def addToBatch
    (load : Nat × Nat)
    (document : DocumentSymbols) : Nat × Nat :=
  let cost := documentCost document
  (saturatingAdd load.1 cost.1, saturatingAdd load.2 cost.2)

/- The next documents that share a transaction. -/
def batchChunk : ChunkSize DocumentSymbols :=
  ChunkSize.greedy maxBatchDocuments maxBatchDocuments_pos
    overfillsBatch addToBatch (0, 0)

/- A document that does not fit into one transaction. -/
def isOversized (document : DocumentSymbols) : Bool :=
  let cost := documentCost document
  decide (maxBatchRows < cost.1 ∨ maxBatchBytes < cost.2)

----------
-- Oversized Documents
----------

namespace CatalogDocument

/- A document with a URI and nothing else. -/
def empty (document : DocumentSymbols) : DocumentSymbols where
  uri := document.uri
  symbols := []
  exports := []
  occurrences := []
  aliases := []
  bindings := []
  classHeritage := none
  classBindingProvenance := none

def maxRowValues : Nat :=
  4096

theorem maxRowValues_pos : 0 < maxRowValues := by
  decide

variable {α : Type}

/- At most 4096 values and four megabytes. -/
def rowChunk
    (size : α → Nat)
    (uriBytes : Nat) : ChunkSize α :=
  let next := fun value =>
    saturatingAdd (size value) (uriBytes + 256)
  ChunkSize.greedy maxRowValues maxRowValues_pos
    (fun bytes value =>
      decide
        (4 * 1024 * 1024 < saturatingAdd bytes (next value)))
    (fun bytes value => saturatingAdd bytes (next value))
    0

/- The insertion of one chunk, with the rows it counted. -/
abbrev ChunkInsertion (α : Type) :=
  Nat → List α → CatalogTables →
    Except StoreError (CatalogTables × Nat)

/- One transaction of `rows`. -/
def writeRows
    (insert : ChunkInsertion α)
    (start : Nat)
    (chunk : List α)
    (writer : Writer) : Except StoreError Writer := do
  let writer ← emit surroundings .writing writer
  let inserted ← insert start chunk writer.tables
  let writer ← emit surroundings .committing writer
  let writer ←
    emit surroundings .checkpointing
      { writer with
        tables := inserted.1
        progress :=
          { writer.progress with
            writtenRows :=
              saturatingAdd writer.progress.writtenRows
                inserted.2 } }
  let writer ← checkpoint surroundings writer
  emit surroundings .writing writer

def rows
    (values : List α)
    (size : α → Nat)
    (uriBytes : Nat)
    (insert : ChunkInsertion α)
    (writer : Writer) : Except StoreError Writer :=
  chunkLoop (rowChunk size uriBytes)
    (writeRows surroundings insert) 0 values writer

variable (unicode : Unicode)

def insertSymbolChunk
    (document : DocumentSymbols) :
    ChunkInsertion WorkspaceSymbol :=
  fun offset chunk tables => do
    let part := { empty document with symbols := chunk }
    let tables ←
      insertSymbolDocumentsAt unicode offset [part] tables
    pure (tables, chunk.length)

def insertExportChunk
    (generation : Nat)
    (document : DocumentSymbols) :
    ChunkInsertion WorkspaceExport :=
  fun _ chunk tables => do
    let part := { empty document with exports := chunk }
    let sqlGeneration ← sqliteGeneration generation
    let tables ←
      insertExportDocuments unicode sqlGeneration [part] tables
    pure (tables, chunk.length)

def insertOccurrenceChunk
    (document : DocumentSymbols) :
    ChunkInsertion ReferenceOccurrence :=
  fun offset chunk tables => do
    let part := { empty document with occurrences := chunk }
    let tables' ← insertDocumentChunk part offset tables
    pure
      (tables',
        tables'.occurrences.length -
            tables.occurrences.length +
          (tables'.identities.length -
            tables.identities.length))

def insertAliasChunk
    (document : DocumentSymbols) :
    ChunkInsertion ReferenceAlias :=
  fun offset chunk tables => do
    let part := { empty document with aliases := chunk }
    let tables ← insertDocumentChunk part offset tables
    pure (tables, chunk.length)

def insertBindingChunk
    (document : DocumentSymbols) :
    ChunkInsertion ReferenceBinding :=
  fun offset chunk tables => do
    let part := { empty document with bindings := chunk }
    let tables ← insertDocumentChunk part offset tables
    pure (tables, chunk.length)

def insertHeritageChunk
    (document : DocumentSymbols)
    (facts : DocumentClassHeritage) :
    ChunkInsertion ClassHeritageDeclaration :=
  fun offset chunk tables => do
    let part :=
      { empty document with
        classHeritage := some { facts with classes := chunk }
        classBindingProvenance :=
          document.classBindingProvenance }
    let tables ← insertHeritageDocumentsAt offset [part] tables
    pure (tables, chunk.length)

/- The document row with everything but the classes. -/
def baseDocument (document : DocumentSymbols) : DocumentSymbols :=
  { empty document with
    classBindingProvenance := document.classBindingProvenance
    classHeritage :=
      document.classHeritage.map fun facts =>
        { facts with classes := [] } }

def writeBase
    (generation : Nat)
    (document : DocumentSymbols)
    (writer : Writer) : Except StoreError Writer := do
  let sqlGeneration ← sqliteGeneration generation
  let tables ←
    insertCatalogDocuments sqlGeneration
      [baseDocument document] writer.tables
  let tables ←
    insertHeritageDocuments [baseDocument document] tables
  let writer ← emit surroundings .committing writer
  pure
    { writer with
      tables := tables
      progress :=
        { writer.progress with
          writtenRows := writer.progress.writtenRows + 1 } }

def writeHeritage
    (document : DocumentSymbols)
    (writer : Writer) : Except StoreError Writer :=
  match document.classHeritage with
  | none => Except.ok writer
  | some facts =>
      rows surroundings facts.classes
        (fun item =>
          byteLength item.name + baseLength item.base)
        (byteLength document.uri)
        (insertHeritageChunk document facts) writer

/- Write one document in as many transactions as it needs. -/
def write
    (generation : Nat)
    (document : DocumentSymbols)
    (writer : Writer) : Except StoreError Writer := do
  let uriBytes := byteLength document.uri
  let writer ←
    writeBase surroundings generation document writer
  let writer ←
    rows surroundings document.symbols
      (fun item =>
        byteLength item.name * 3 +
          optionalLength item.container)
      uriBytes (insertSymbolChunk unicode document) writer
  let writer ←
    rows surroundings document.exports
      (fun item =>
        byteLength item.exportedName +
          optionalLength item.referenceExportName +
          optionalLength item.declarationIdentity +
          optionalLength item.importSpecifier +
          optionalLength item.moduleId +
          optionalLength item.targetScope)
      uriBytes (insertExportChunk unicode generation document)
      writer
  let writer ←
    rows surroundings document.occurrences
      (fun item =>
        2 *
          (byteLength item.name +
            optionalLength item.qualifier))
      (uriBytes * 2) (insertOccurrenceChunk document) writer
  let writer ←
    rows surroundings document.aliases
      (fun item =>
        byteLength item.fromName + byteLength item.toName)
      uriBytes (insertAliasChunk document) writer
  let writer ←
    rows surroundings document.bindings
      (fun item =>
        byteLength item.importedName +
          byteLength item.localName +
          byteLength item.sourceSpecifier)
      uriBytes (insertBindingChunk document) writer
  writeHeritage surroundings document writer

end CatalogDocument

----------
-- Batches
----------

section Batches

variable (unicode : Unicode)

variable (generation : Nat)

variable (documents : List DocumentSymbols)

/- The statements of one batch transaction. -/
def insertBatch
    (tables : CatalogTables) :
    Except StoreError CatalogTables := do
  let sqlGeneration ← sqliteGeneration generation
  let tables ←
    insertCatalogDocuments sqlGeneration documents tables
  let tables ←
    insertSymbolDocuments unicode documents tables
  let tables ←
    insertExportDocuments unicode sqlGeneration documents
      tables
  let tables ← insertHeritageDocuments documents tables
  insertReferenceDocuments documents tables

/- The rows of a committed batch, as the progress counts. -/
def actualRows
    (before after : CatalogTables) : Nat :=
  total
      (fun document =>
        1 + document.symbols.length +
          document.exports.length +
          (heritageClasses document).length)
      documents +
    (after.occurrences.length - before.occurrences.length) +
    (after.identities.length - before.identities.length) +
    (after.aliases.length - before.aliases.length) +
    (after.bindings.length - before.bindings.length)

/- `written` documents are in when this batch is. -/
def writeBatch
    (generation written : Nat)
    (documents : List DocumentSymbols)
    (writer : Writer) : Except StoreError Writer := do
  documents.forM validateReplacement
  let tables ←
    insertBatch unicode generation documents writer.tables
  let rows := actualRows documents writer.tables tables
  let writer ← emit surroundings .committing writer
  let writer ←
    emit surroundings .checkpointing
      { writer with
        tables := tables
        progress :=
          { writer.progress with
            writtenDocuments := written
            writtenRows :=
              saturatingAdd writer.progress.writtenRows
                rows } }
  let writer ← checkpoint surroundings writer
  emit surroundings .writing writer

def writeOversized
    (generation written : Nat)
    (document : DocumentSymbols)
    (writer : Writer) : Except StoreError Writer := do
  validateReplacement document
  let writer ←
    CatalogDocument.write surroundings unicode generation
      document writer
  emit surroundings .writing
    { writer with
      progress :=
        { writer.progress with writtenDocuments := written } }

/- One round of the loop of `write_documents`. -/
def writeChunk
    (generation offset : Nat)
    (documents : List DocumentSymbols)
    (writer : Writer) : Except StoreError Writer := do
  let writer ← emit surroundings .writing writer
  let written := offset + documents.length
  match documents with
  | [document] =>
      if isOversized document then
        writeOversized surroundings unicode generation written
          document writer
      else
        writeBatch surroundings unicode generation written
          documents writer
  | documents =>
      writeBatch surroundings unicode generation written
        documents writer

def writeDocuments
    (writer : Writer) : Except StoreError Writer :=
  chunkLoop batchChunk
    (writeChunk surroundings unicode generation)
    writer.progress.writtenDocuments documents writer

----------
-- Streams
----------

inductive CatalogInput where
| document (document : DocumentSymbols)
| rejected (uri : String)
| complete
deriving DecidableEq

/- What `consume` holds between two polls of its producer. -/
structure StreamState where
  writer : Writer
  documents : List DocumentSymbols
  rejectedUris : List String
  load : Nat × Nat
  previousUri : Option String
deriving DecidableEq

def StreamState.new (writer : Writer) : StreamState where
  writer := writer
  documents := []
  rejectedUris := []
  load := (0, 0)
  previousUri := none

def flush
    (state : StreamState) : Except StoreError StreamState := do
  let writer ←
    writeDocuments surroundings unicode generation
      state.documents state.writer
  pure
    { state with
      writer := writer
      documents := []
      load := (0, 0) }

def invalid (message : String) : StoreError :=
  ⟨.internal, message⟩

/- The previous document does not precede this one. -/
def outOfOrder
    (previous : Option String)
    (uri : String) : Bool :=
  match previous with
  | none => false
  | some previous => decide (uri ≤ previous)

/- The buffered documents must go before one that is large. -/
def flushBefore
    (document : DocumentSymbols)
    (state : StreamState) : Except StoreError StreamState :=
  if !state.documents.isEmpty &&
      overfillsBatch state.load document then
    flush surroundings unicode generation state
  else
    Except.ok state

/- The buffer is full with the document that was added. -/
def flushAfter
    (state : StreamState) : Except StoreError StreamState :=
  if state.documents.length = maxBatchDocuments ∨
      maxBatchRows ≤ state.load.1 ∨
      maxBatchBytes ≤ state.load.2 then
    flush surroundings unicode generation state
  else
    Except.ok state

def consumeDocument
    (document : DocumentSymbols)
    (state : StreamState) : Except StoreError StreamState :=
  if outOfOrder state.previousUri document.uri then
    Except.error
      (invalid
        "catalog stream documents are not strictly URI ordered")
  else do
    let state ←
      flushBefore surroundings unicode generation document
        { state with previousUri := some document.uri }
    flushAfter surroundings unicode generation
      { state with
        documents := state.documents ++ [document]
        load := addToBatch state.load document }

/- The producer's events up to the end of its stream. -/
def consume
    (generation : Nat) :
    List (Except StoreError CatalogInput) →
      StreamState → Except StoreError StreamState
| [], state => do
    let _ ← emit surroundings .writing state.writer
    Except.error
      (invalid "catalog stream ended without Complete")
| event :: rest, state => do
    let writer ← emit surroundings .writing state.writer
    let state := { state with writer := writer }
    let input ← event
    match input with
    | .document document =>
        consumeDocument surroundings unicode generation
            document state >>=
          consume generation rest
    | .rejected uri =>
        consume generation rest
          { state with
            rejectedUris := state.rejectedUris ++ [uri] }
    | .complete => do
        let writer ← emit surroundings .writing state.writer
        if !rest.isEmpty then
          Except.error
            (invalid
              "catalog stream has events after Complete")
        else
          flush surroundings unicode generation
            { state with writer := writer }

----------
-- Whole Builds
----------

def rejectionsPerTransaction : Nat :=
  256

theorem rejectionsPerTransaction_pos :
    0 < rejectionsPerTransaction := by
  decide

/- `INSERT OR IGNORE` in transactions of 256 rows. -/
def insertRejected
    (rejected table : List String) :
    Except StoreError (List String) :=
  chunkLoop
    (ChunkSize.const rejectionsPerTransaction
      rejectionsPerTransaction_pos)
    (fun _ chunk table =>
      Except.ok (insertRowsIgnoring id chunk table))
    0 rejected table

def finishMetadata
    (rejected : List String)
    (database : CatalogDatabase) :
    Except StoreError CatalogDatabase := do
  let table ← insertRejected rejected database.rejected
  let sqlGeneration ← sqliteGeneration generation
  pure
    { database with
      rejected := table
      committedGeneration := sqlGeneration }

/- The row's document exists. -/
def hasDocument
    (tables : CatalogTables)
    (uri : String) : Bool :=
  tables.documents.any fun row => decide (row.uri = uri)

/- `PRAGMA foreign_key_check` finds nothing. -/
def foreignKeysHold (tables : CatalogTables) : Bool :=
  tables.symbols.all
      (hasDocument tables ∘ SymbolRow.documentUri) &&
    tables.exports.all
      (hasDocument tables ∘ ExportRow.documentUri) &&
    tables.occurrences.all
      (hasDocument tables ∘ OccurrenceRow.documentUri) &&
    tables.identities.all
      (hasDocument tables ∘ IdentityRow.documentUri) &&
    tables.aliases.all
      (hasDocument tables ∘ AliasRow.documentUri) &&
    tables.bindings.all
      (hasDocument tables ∘ BindingRow.documentUri) &&
    tables.heritage.all
      (hasDocument tables ∘ HeritageRow.documentUri)

/-
  The checks of SQLite on its own file format and of the
  full-text index against the symbols are not repeated.
-/
def validate
    (tables : CatalogTables) : Except StoreError Unit :=
  if foreignKeysHold tables then
    Except.ok ()
  else
    Except.error
      ⟨.incompatible,
        "private catalog failed foreign_key_check"⟩

/- The private half of a build that does not reuse. -/
def sealDatabase
    (rejected : List String)
    (writer : Writer) :
    Except StoreError CatalogDatabase := do
  let writer ← emit surroundings .validating writer
  validate writer.tables
  let writer ← emit surroundings .checkpointing writer
  let database ←
    finishMetadata generation rejected
      { CatalogDatabase.new with tables := writer.tables }
  let writer ← checkpoint surroundings writer
  let _ ← emit surroundings .checkpointing writer
  pure database

/- The order of `build_catalog`'s documents. -/
def sortByUri
    (documents : List DocumentSymbols) :
    List DocumentSymbols :=
  documents.insertionSort fun left right =>
    left.uri ≤ right.uri

def buildCatalog
    (batch : FullCatalogBatch) :
    Except StoreError CatalogDatabase := do
  let writer ←
    writeDocuments surroundings unicode batch.generation
      (sortByUri batch.documents) Writer.new
  sealDatabase surroundings batch.generation
    batch.rejectedUris writer

def buildCatalogStream
    (inputs : List (Except StoreError CatalogInput)) :
    Except StoreError CatalogDatabase := do
  let state ←
    consume surroundings unicode generation inputs
      (StreamState.new Writer.new)
  sealDatabase surroundings generation state.rejectedUris
    state.writer

end Batches

end Build

end Store

end ArktsServer
