import ArktsServer.Store.CatalogBuild

/-
  Correctness of the oversized path: a document that is
  written chunk by chunk leaves the same rows as one that is
  inserted at once.  The ordinals continue from chunk to
  chunk; the identities are sorted within a chunk and the
  repeated ones are ignored, so only their order differs.

  Main declarations:
    * `Surroundings.Cooperative`
    * `rows_spec`, `rows_total`
    * `rows_table_spec`, `rows_table_total`
    * `write_spec`, `write_total`
-/

----------
-- Surroundings
----------

namespace ArktsServer

namespace Store

open Chunking

/- Nobody cancels and every checkpoint finishes. -/
structure Surroundings.Cooperative
    (surroundings : Surroundings) : Prop where
  observe :
    ∀ call progress,
      surroundings.observe call progress = true
  busy : ∀ call, (surroundings.walCheckpoint call).busy = 0
  done :
    ∀ call,
      (surroundings.walCheckpoint call).wal ≤
        (surroundings.walCheckpoint call).done

section Steps

variable {surroundings : Surroundings}
variable {writer writer' : Writer}

theorem tables_of_emit
    {stage : CatalogStage}
    (hEmit :
      emit surroundings stage writer = Except.ok writer') :
    writer'.tables = writer.tables := by
  unfold emit at hEmit
  simp only at hEmit
  split at hEmit
  · injection hEmit with hWriter
    rw [← hWriter]
  · cases hEmit

theorem tables_of_checkpoint
    (hCheckpoint :
      checkpoint surroundings writer = Except.ok writer') :
    writer'.tables = writer.tables := by
  unfold checkpoint at hCheckpoint
  simp only at hCheckpoint
  split at hCheckpoint
  · cases hCheckpoint
  · injection hCheckpoint with hWriter
    rw [← hWriter]

theorem emit_total
    (hCooperative : surroundings.Cooperative)
    (stage : CatalogStage)
    (writer : Writer) :
    ∃ writer',
      emit surroundings stage writer = Except.ok writer' := by
  unfold emit
  simp only
  rw [if_pos (hCooperative.observe _ _)]
  exact ⟨_, rfl⟩

theorem checkpoint_total
    (hCooperative : surroundings.Cooperative)
    (writer : Writer) :
    ∃ writer',
      checkpoint surroundings writer =
        Except.ok writer' := by
  unfold checkpoint
  simp only
  have hBusy := hCooperative.busy writer.calls
  have hDone := hCooperative.done writer.calls
  rw [if_neg (by omega)]
  exact ⟨_, rfl⟩

end Steps

namespace CatalogDocument

----------
-- One Vector of a Document
----------

section Rows

variable {surroundings : Surroundings}
variable {α : Type}
variable {insert : ChunkInsertion α}
variable {writer writer' : Writer}
variable {start : Nat}
variable {chunk : List α}

theorem writeRows_spec
    (hWrite :
      writeRows surroundings insert start chunk writer =
        Except.ok writer') :
    ∃ count,
      insert start chunk writer.tables =
        Except.ok (writer'.tables, count) := by
  unfold writeRows at hWrite
  rcases bind_eq_ok.mp hWrite with ⟨first, hFirst, hWrite⟩
  rcases bind_eq_ok.mp hWrite with
    ⟨⟨tables, count⟩, hInsert, hWrite⟩
  rcases bind_eq_ok.mp hWrite with ⟨second, hSecond, hWrite⟩
  rcases bind_eq_ok.mp hWrite with ⟨third, hThird, hWrite⟩
  rcases bind_eq_ok.mp hWrite with ⟨fourth, hFourth, hLast⟩
  have hTables : writer'.tables = tables := by
    rw [tables_of_emit hLast, tables_of_checkpoint hFourth,
      tables_of_emit hThird]
  rw [tables_of_emit hFirst] at hInsert
  exact ⟨count, hTables ▸ hInsert⟩

variable {writer : Writer}

theorem writeRows_total
    (hCooperative : surroundings.Cooperative)
    {tables : CatalogTables}
    {count : Nat}
    (hInsert :
      insert start chunk writer.tables =
        Except.ok (tables, count)) :
    ∃ writer',
      writeRows surroundings insert start chunk writer =
          Except.ok writer' ∧
        writer'.tables = tables := by
  rcases emit_total hCooperative .writing writer with
    ⟨first, hFirst⟩
  rcases emit_total hCooperative .committing first with
    ⟨second, hSecond⟩
  rcases
    emit_total hCooperative .checkpointing
      { second with
        tables := tables
        progress :=
          { second.progress with
            writtenRows :=
              saturatingAdd second.progress.writtenRows
                count } } with
    ⟨third, hThird⟩
  rcases checkpoint_total hCooperative third with
    ⟨fourth, hFourth⟩
  rcases emit_total hCooperative .writing fourth with
    ⟨last, hLast⟩
  refine ⟨last, ?_, ?_⟩
  · unfold writeRows
    refine bind_eq_ok.mpr ⟨first, hFirst, ?_⟩
    refine bind_eq_ok.mpr ⟨(tables, count), ?_, ?_⟩
    · rw [tables_of_emit hFirst]
      exact hInsert
    · refine bind_eq_ok.mpr ⟨second, hSecond, ?_⟩
      refine bind_eq_ok.mpr ⟨third, hThird, ?_⟩
      exact bind_eq_ok.mpr ⟨fourth, hFourth, hLast⟩
  · rw [tables_of_emit hLast, tables_of_checkpoint hFourth,
      tables_of_emit hThird]

variable {values : List α}
variable {size : α → Nat}
variable {uriBytes : Nat}

theorem rows_spec
    (Spec :
      Nat → List α → CatalogTables → CatalogTables → Prop)
    (hSpec : Compositional Spec)
    (hInsert :
      ∀ start chunk tables tables' count,
        insert start chunk tables =
            Except.ok (tables', count) →
          Spec start chunk tables tables')
    (hRows :
      rows surroundings values size uriBytes insert writer =
        Except.ok writer') :
    Spec 0 values writer.tables writer'.tables := by
  have hWriters :
      Compositional fun start chunk (first last : Writer) =>
        Spec start chunk first.tables last.tables :=
    ⟨fun start writer => hSpec.nil start writer.tables,
      fun hFirst hSecond => hSpec.append hFirst hSecond⟩
  refine chunkLoop_spec hWriters (rowChunk size uriBytes) ?_ hRows
  intro start chunk first last hWrite
  rcases writeRows_spec hWrite with ⟨count, hCount⟩
  exact hInsert start chunk _ _ count hCount

theorem rows_total
    (hCooperative : surroundings.Cooperative)
    (Ready : Nat → List α → CatalogTables → Prop)
    (hReady :
      ∀ start first second tables,
        Ready start (first ++ second) tables →
          ∃ tables' count,
            insert start first tables =
                Except.ok (tables', count) ∧
              Ready (start + first.length) second tables')
    (hStart : Ready 0 values writer.tables) :
    ∃ writer',
      rows surroundings values size uriBytes insert writer =
        Except.ok writer' := by
  refine
    chunkLoop_total
      (fun start chunk (writer : Writer) =>
        Ready start chunk writer.tables)
      (rowChunk size uriBytes) ?_ hStart
  intro start first second writer hBoth
  rcases hReady start first second writer.tables hBoth with
    ⟨tables, count, hInsert, hRest⟩
  rcases writeRows_total hCooperative hInsert with
    ⟨writer', hWrite, hTables⟩
  exact ⟨writer', hWrite, hTables ▸ hRest⟩

----------
-- Vectors That Fill One Table
----------

/- One table among the others. -/
structure TableLens (Row : Type) where
  get : CatalogTables → List Row
  set : CatalogTables → List Row → CatalogTables
  get_set : ∀ tables rows, get (set tables rows) = rows
  set_get : ∀ tables, set tables (get tables) = tables
  set_set :
    ∀ tables rows rows',
      set (set tables rows) rows' = set tables rows'

def symbolLens : TableLens SymbolRow where
  get := CatalogTables.symbols
  set := fun tables rows => { tables with symbols := rows }
  get_set := fun _ _ => rfl
  set_get := fun _ => rfl
  set_set := fun _ _ _ => rfl

def exportLens : TableLens ExportRow where
  get := CatalogTables.exports
  set := fun tables rows => { tables with exports := rows }
  get_set := fun _ _ => rfl
  set_get := fun _ => rfl
  set_set := fun _ _ _ => rfl

def aliasLens : TableLens AliasRow where
  get := CatalogTables.aliases
  set := fun tables rows => { tables with aliases := rows }
  get_set := fun _ _ => rfl
  set_get := fun _ => rfl
  set_set := fun _ _ _ => rfl

def bindingLens : TableLens BindingRow where
  get := CatalogTables.bindings
  set := fun tables rows => { tables with bindings := rows }
  get_set := fun _ _ => rfl
  set_get := fun _ => rfl
  set_set := fun _ _ _ => rfl

variable {Row : Type}
variable
  {process :
    Nat → List α → List Row → Except StoreError (List Row)}

/- The chunk insertion does to its table what `process` does. -/
def FillsTable
    (lens : TableLens Row)
    (process :
      Nat → List α → List Row → Except StoreError (List Row))
    (insert : ChunkInsertion α) : Prop :=
  ∀ start chunk tables tables' count,
    insert start chunk tables = Except.ok (tables', count) ↔
      count = chunk.length ∧
        ∃ rows,
          process start chunk (lens.get tables) =
              Except.ok rows ∧
            tables' = lens.set tables rows

variable {lens : TableLens Row}

/- The chunks together do what one insertion would do. -/
theorem rows_table_spec
    (hProcess : Additive process)
    (hFills : FillsTable lens process insert)
    (hRows :
      rows surroundings values size uriBytes insert writer =
        Except.ok writer') :
    ∃ rows,
      process 0 values (lens.get writer.tables) =
          Except.ok rows ∧
        writer'.tables = lens.set writer.tables rows := by
  refine
    rows_spec
      (fun start chunk tables tables' =>
        ∃ rows,
          process start chunk (lens.get tables) =
              Except.ok rows ∧
            tables' = lens.set tables rows)
      ⟨?_, ?_⟩ ?_ hRows
  · intro start tables
    exact
      ⟨lens.get tables, hProcess.nil start _,
        (lens.set_get tables).symm⟩
  · rintro start first second tables _ _
      ⟨rows, hFirst, rfl⟩ ⟨rows', hSecond, rfl⟩
    rw [lens.get_set] at hSecond
    refine ⟨rows', ?_, lens.set_set tables rows rows'⟩
    rw [hProcess.append]
    exact bind_eq_ok.mpr ⟨rows, hFirst, hSecond⟩
  · intro start chunk tables tables' count hInsert
    exact ((hFills _ _ _ _ _).mp hInsert).2

theorem rows_table_total
    (hCooperative : surroundings.Cooperative)
    (hProcess : Additive process)
    (hFills : FillsTable lens process insert)
    {rows' : List Row}
    (hValues :
      process 0 values (lens.get writer.tables) =
        Except.ok rows') :
    ∃ writer',
      rows surroundings values size uriBytes insert writer =
        Except.ok writer' := by
  refine
    rows_total hCooperative
      (fun start chunk tables =>
        ∃ rows,
          process start chunk (lens.get tables) = Except.ok rows)
      ?_ ⟨rows', hValues⟩
  rintro start first second tables ⟨last, hLast⟩
  rw [hProcess.append] at hLast
  rcases bind_eq_ok.mp hLast with ⟨rows, hFirst, hSecond⟩
  refine ⟨lens.set tables rows, first.length, ?_, last, ?_⟩
  · exact (hFills _ _ _ _ _).mpr ⟨rfl, rows, hFirst, rfl⟩
  · rw [lens.get_set]
    exact hSecond

end Rows

----------
-- The Vectors of a Document
----------

section Vectors

variable (unicode : Unicode)

theorem fills_symbols (document : DocumentSymbols) :
    FillsTable symbolLens
      (fun start chunk =>
        insertRows SymbolRow.key
          ((chunk.zipIdx start).map
            (symbolRow unicode document.uri)))
      (insertSymbolChunk unicode document) := by
  intro start chunk tables tables' count
  have hRows :
      [{ empty document with symbols := chunk }].flatMap
          (symbolRows unicode start) =
        (chunk.zipIdx start).map
          (symbolRow unicode document.uri) :=
    List.flatMap_singleton _ _
  unfold insertSymbolChunk
  rw [bind_eq_ok]
  constructor
  · rintro ⟨middle, hInsert, hPure⟩
    rcases (insertSymbolDocumentsAt_iff unicode).mp hInsert
      with ⟨rows, hOk, rfl⟩
    rcases Prod.mk.inj (pure_eq_ok.mp hPure) with ⟨rfl, rfl⟩
    rw [hRows] at hOk
    exact ⟨rfl, rows, hOk, rfl⟩
  · rintro ⟨rfl, rows, hOk, rfl⟩
    refine
      ⟨_, (insertSymbolDocumentsAt_iff unicode).mpr
        ⟨rows, ?_, rfl⟩, rfl⟩
    rw [hRows]
    exact hOk

variable {generation : Nat}

theorem fills_exports
    (hGeneration : generation < 2 ^ 63)
    (document : DocumentSymbols) :
    FillsTable exportLens
      (fun _ chunk =>
        insertRows ExportRow.key
          (chunk.map
            (exportRow unicode generation document.uri)))
      (insertExportChunk unicode generation document) := by
  intro start chunk tables tables' count
  have hSql :
      sqliteGeneration generation = Except.ok generation :=
    sqliteGeneration_eq_ok.mpr ⟨hGeneration, rfl⟩
  have hRows :
      [{ empty document with exports := chunk }].flatMap
          (exportRows unicode generation) =
        chunk.map (exportRow unicode generation document.uri) :=
    List.flatMap_singleton _ _
  unfold insertExportChunk insertExportDocuments
  rw [hSql]
  constructor
  · intro hInsert
    rcases bind_eq_ok.mp hInsert with ⟨sql, hOk, hInsert⟩
    injection hOk with hOk
    subst hOk
    rcases bind_eq_ok.mp hInsert with ⟨middle, hBoth, hPure⟩
    rcases bind_eq_ok.mp hBoth with ⟨rows, hOk, hTables⟩
    rcases Prod.mk.inj (pure_eq_ok.mp hPure) with ⟨rfl, rfl⟩
    rw [hRows] at hOk
    exact ⟨rfl, rows, hOk, (pure_eq_ok.mp hTables).symm⟩
  · rintro ⟨rfl, rows, hOk, rfl⟩
    refine bind_eq_ok.mpr ⟨generation, rfl, ?_⟩
    refine bind_eq_ok.mpr ⟨_, ?_, rfl⟩
    refine bind_eq_ok.mpr ⟨rows, ?_, rfl⟩
    rw [hRows]
    exact hOk

variable {document : DocumentSymbols}

/- One document, with the conflicts of identities ignored. -/
theorem insertDocumentChunk_iff
    {offset : Nat}
    {tables tables' : CatalogTables} :
    insertDocumentChunk document offset tables =
        Except.ok tables' ↔
      ∃ occurrences aliases bindings,
        insertRows OccurrenceRow.key
            (occurrenceRows offset document)
            tables.occurrences = Except.ok occurrences ∧
          insertRows AliasRow.key (aliasRows offset document)
              tables.aliases = Except.ok aliases ∧
          insertRows BindingRow.key
              (bindingRows offset document)
              tables.bindings = Except.ok bindings ∧
          tables' =
            { tables with
              occurrences := occurrences
              identities :=
                insertRowsIgnoring id
                  (identityRows document.uri document.occurrences)
                  tables.identities
              aliases := aliases
              bindings := bindings } := by
  unfold insertDocumentChunk
  rw [insertReferenceDocumentsAt_iff]
  unfold ReferencesInserted insertIdentityValues
  simp only [List.flatMap_singleton, List.nil_append, if_true]
  constructor
  · rintro
      ⟨occurrences, identities, aliases, bindings, hOcc,
        hIds, hAls, hBinds, rfl⟩
    injection hIds with hIds
    subst hIds
    exact
      ⟨occurrences, aliases, bindings, hOcc, hAls, hBinds, rfl⟩
  · rintro
      ⟨occurrences, aliases, bindings, hOcc, hAls, hBinds, rfl⟩
    exact
      ⟨occurrences, _, aliases, bindings, hOcc, rfl, hAls,
        hBinds, rfl⟩

theorem fills_aliases (document : DocumentSymbols) :
    FillsTable aliasLens
      (fun start chunk =>
        insertRows AliasRow.key
          ((chunk.zipIdx start).map (aliasRow document.uri)))
      (insertAliasChunk document) := by
  intro start chunk tables tables' count
  unfold insertAliasChunk
  rw [bind_eq_ok]
  constructor
  · rintro ⟨middle, hInsert, hPure⟩
    rcases insertDocumentChunk_iff.mp hInsert with
      ⟨occurrences, rows, bindings, hOcc, hOk, hBinds, rfl⟩
    rcases Prod.mk.inj (pure_eq_ok.mp hPure) with ⟨rfl, rfl⟩
    injection hOcc with hOcc
    injection hBinds with hBinds
    refine ⟨rfl, rows, hOk, ?_⟩
    rw [← hOcc, ← hBinds]
    rfl
  · rintro ⟨rfl, rows, hOk, rfl⟩
    exact
      ⟨_, insertDocumentChunk_iff.mpr
        ⟨tables.occurrences, rows, tables.bindings, rfl, hOk,
          rfl, rfl⟩, rfl⟩

theorem fills_bindings (document : DocumentSymbols) :
    FillsTable bindingLens
      (fun start chunk =>
        insertRows BindingRow.key
          ((chunk.zipIdx start).map
            (bindingRow document.uri)))
      (insertBindingChunk document) := by
  intro start chunk tables tables' count
  unfold insertBindingChunk
  rw [bind_eq_ok]
  constructor
  · rintro ⟨middle, hInsert, hPure⟩
    rcases insertDocumentChunk_iff.mp hInsert with
      ⟨occurrences, aliases, rows, hOcc, hAls, hOk, rfl⟩
    rcases Prod.mk.inj (pure_eq_ok.mp hPure) with ⟨rfl, rfl⟩
    injection hOcc with hOcc
    injection hAls with hAls
    refine ⟨rfl, rows, hOk, ?_⟩
    rw [← hOcc, ← hAls]
    rfl
  · rintro ⟨rfl, rows, hOk, rfl⟩
    exact
      ⟨_, insertDocumentChunk_iff.mpr
        ⟨tables.occurrences, tables.aliases, rows, rfl, rfl,
          hOk, rfl⟩, rfl⟩

----------
-- Occurrences and Their Identities
----------

/-
  The identities that a chunk adds: each new one once, in an
  order that depends on how the occurrences were cut.
-/
def OccurrencesInserted
    (uri : String)
    (start : Nat)
    (chunk : List ReferenceOccurrence)
    (tables tables' : CatalogTables) : Prop :=
  ∃ rows added,
    insertRows OccurrenceRow.key
        ((chunk.zipIdx start).map (occurrenceRow uri))
        tables.occurrences = Except.ok rows ∧
      added.Nodup ∧
      (∀ row,
        row ∈ added ↔
          row ∈ identityRows uri chunk ∧
            row ∉ tables.identities) ∧
      tables' =
        { tables with
          occurrences := rows
          identities := tables.identities ++ added }

theorem compositional_occurrencesInserted (uri : String) :
    Compositional (OccurrencesInserted uri) where
  nil := by
    intro start tables
    refine ⟨tables.occurrences, [], rfl, List.nodup_nil, ?_, ?_⟩
    · intro row
      rw [mem_identityRows]
      simp
    · simp
  append := by
    rintro start first second tables _ _
      ⟨rows, added, hFirst, hNodup, hAdded, rfl⟩
      ⟨rows', added', hSecond, hNodup', hAdded', rfl⟩
    have hOccurrences :=
      (additive_zipIdx (additive_insertRows OccurrenceRow.key)
        (occurrenceRow uri)).append start first second
        tables.occurrences
    refine ⟨rows', added ++ added', ?_, ?_, ?_, ?_⟩
    · rw [hOccurrences]
      exact bind_eq_ok.mpr ⟨rows, hFirst, hSecond⟩
    · refine List.nodup_append.mpr ⟨hNodup, hNodup', ?_⟩
      intro row hRow row' hRow' hSame
      have hNew := ((hAdded' row').mp hRow').2
      apply hNew
      rw [← hSame]
      exact List.mem_append_right _ hRow
    · intro row
      have hParts :
          row ∈ identityRows uri (first ++ second) ↔
            row ∈ identityRows uri first ∨
              row ∈ identityRows uri second := by
        simp only [mem_identityRows, List.mem_append]
        constructor
        · rintro ⟨occurrence, hFirst | hSecond, hRow⟩
          · exact Or.inl ⟨occurrence, hFirst, hRow⟩
          · exact Or.inr ⟨occurrence, hSecond, hRow⟩
        · rintro (⟨occurrence, hMem, hRow⟩ |
            ⟨occurrence, hMem, hRow⟩)
          · exact ⟨occurrence, Or.inl hMem, hRow⟩
          · exact ⟨occurrence, Or.inr hMem, hRow⟩
      rw [List.mem_append, hAdded, hAdded', hParts]
      simp only [List.mem_append, hAdded]
      tauto
    · simp

variable {start : Nat}
variable {chunk : List ReferenceOccurrence}

theorem occurrencesInserted_of_chunk
    {tables tables' : CatalogTables}
    {count : Nat}
    (hInsert :
      insertOccurrenceChunk document start chunk tables =
        Except.ok (tables', count)) :
    OccurrencesInserted document.uri start chunk tables
      tables' := by
  unfold insertOccurrenceChunk at hInsert
  rcases bind_eq_ok.mp hInsert with
    ⟨middle, hChunk, hPure⟩
  rcases Prod.mk.inj (pure_eq_ok.mp hPure) with ⟨rfl, _⟩
  rcases insertDocumentChunk_iff.mp hChunk with
    ⟨rows, aliases, bindings, hOk, hAls, hBinds, rfl⟩
  injection hAls with hAls
  injection hBinds with hBinds
  rcases
    insertRowsIgnoring_id
      (identityRows document.uri chunk)
      tables.identities with
    ⟨added, hIdentities, hNodup, hAdded⟩
  refine ⟨rows, added, hOk, hNodup, hAdded, ?_⟩
  rw [← hAls, ← hBinds, ← hIdentities]
  rfl

variable {tables : CatalogTables}

theorem insertOccurrenceChunk_total
    {rows : List OccurrenceRow}
    (hRows :
      insertRows OccurrenceRow.key
          ((chunk.zipIdx start).map
            (occurrenceRow document.uri))
          tables.occurrences = Except.ok rows) :
    ∃ tables' count,
      insertOccurrenceChunk document start chunk tables =
          Except.ok (tables', count) ∧
        tables'.occurrences = rows := by
  have hChunk :
      insertDocumentChunk
          { empty document with occurrences := chunk } start
          tables =
        Except.ok
          { tables with
            occurrences := rows
            identities :=
              insertRowsIgnoring id
                (identityRows document.uri chunk)
                tables.identities } :=
    insertDocumentChunk_iff.mpr
      ⟨rows, tables.aliases, tables.bindings, hRows, rfl,
        rfl, rfl⟩
  exact ⟨_, _, bind_eq_ok.mpr ⟨_, hChunk, rfl⟩, rfl⟩

----------
-- Classes
----------

/- The document row already has its final values. -/
def Settled
    (document : DocumentSymbols)
    (tables : CatalogTables) : Prop :=
  settleDocument document tables.documents =
    tables.documents

/- A chunk of classes repeats the updates of the base. -/
theorem insertHeritageChunk_iff
    {facts : DocumentClassHeritage}
    (hFacts : document.classHeritage = some facts)
    {chunk : List ClassHeritageDeclaration}
    {tables tables' : CatalogTables}
    {count : Nat}
    (hSettled : Settled document tables) :
    insertHeritageChunk document facts start chunk tables =
        Except.ok (tables', count) ↔
      count = chunk.length ∧
        ∃ rows,
          insertRows HeritageRow.key
              ((chunk.zipIdx start).map
                (heritageRow document.uri
                  (directExports document)))
              tables.heritage = Except.ok rows ∧
            tables' = { tables with heritage := rows } := by
  have hSame :
      settleDocument
          { empty document with
            classHeritage := some { facts with classes := chunk }
            classBindingProvenance :=
              document.classBindingProvenance }
          tables.documents =
        tables.documents := by
    have hOwn := hSettled
    unfold Settled settleDocument at hOwn
    rw [hFacts] at hOwn
    exact hOwn
  have hInsert :
      ∀ middle,
        insertHeritageDocumentsAt start
            [{ empty document with
              classHeritage :=
                some { facts with classes := chunk }
              classBindingProvenance :=
                document.classBindingProvenance }]
            tables = Except.ok middle ↔
          ∃ rows,
            insertRows HeritageRow.key
                ((chunk.zipIdx start).map
                  (heritageRow document.uri
                    (directExports document)))
                tables.heritage = Except.ok rows ∧
              middle = { tables with heritage := rows } := by
    intro middle
    unfold insertHeritageDocumentsAt
    rw [List.foldlM_cons, bind_eq_ok]
    constructor
    · rintro ⟨tables'', hFirst, hRest⟩
      injection hRest with hRest
      subst hRest
      rcases insertHeritageDocument_iff.mp hFirst with
        ⟨rows, hRows, rfl⟩
      rw [hSame]
      exact ⟨rows, hRows, rfl⟩
    · rintro ⟨rows, hRows, rfl⟩
      refine ⟨{ tables with heritage := rows }, ?_, rfl⟩
      refine insertHeritageDocument_iff.mpr ⟨rows, hRows, ?_⟩
      rw [hSame]
  unfold insertHeritageChunk
  rw [bind_eq_ok]
  constructor
  · rintro ⟨middle, hMiddle, hPure⟩
    rcases (hInsert middle).mp hMiddle with ⟨rows, hRows, rfl⟩
    rcases Prod.mk.inj (pure_eq_ok.mp hPure) with ⟨rfl, rfl⟩
    exact ⟨rfl, rows, hRows, rfl⟩
  · rintro ⟨rfl, rows, hRows, rfl⟩
    exact ⟨_, (hInsert _).mpr ⟨rows, hRows, rfl⟩, rfl⟩

variable {writer writer' : Writer}
variable {surroundings : Surroundings}

theorem writeHeritage_spec
    (hSettled : Settled document writer.tables)
    (hWrite :
      writeHeritage surroundings document writer =
        Except.ok writer') :
    writer'.tables =
      { writer.tables with
        heritage :=
          writer.tables.heritage ++
            documentHeritageRows 0 document } := by
  rw [documentHeritageRows_eq]
  unfold writeHeritage at hWrite
  cases hFacts : document.classHeritage with
  | none =>
    rw [hFacts] at hWrite
    injection hWrite with hWriter
    rw [← hWriter]
    simp [heritageClasses, hFacts]
  | some facts =>
    rw [hFacts] at hWrite
    have hChunks :=
      rows_spec
        (fun start chunk tables tables' =>
          Settled document tables →
            ∃ rows,
              insertRows HeritageRow.key
                  ((chunk.zipIdx start).map
                    (heritageRow document.uri
                      (directExports document)))
                  tables.heritage = Except.ok rows ∧
                tables' = { tables with heritage := rows })
        ⟨?_, ?_⟩ ?_ hWrite
    · rcases hChunks hSettled with ⟨rows, hRows, hTables⟩
      rw [hTables, (insertRows_eq_ok_iff.mp hRows).2]
      simp [heritageClasses, hFacts]
    · intro start tables _
      exact ⟨tables.heritage, rfl, rfl⟩
    · intro start first second tables middle tables'
        hFirst hSecond hStart
      rcases hFirst hStart with ⟨rows, hRows, rfl⟩
      rcases hSecond hStart with ⟨rows', hRows', rfl⟩
      have hHeritage :=
        (additive_zipIdx (additive_insertRows HeritageRow.key)
          (heritageRow document.uri
            (directExports document))).append start first
          second tables.heritage
      refine ⟨rows', ?_, rfl⟩
      rw [hHeritage]
      exact bind_eq_ok.mpr ⟨rows, hRows, hRows'⟩
    · intro start chunk tables tables' count hInsert hStart
      exact ((insertHeritageChunk_iff hFacts hStart).mp hInsert).2

variable {writer : Writer}

theorem writeHeritage_total
    (hCooperative : surroundings.Cooperative)
    (hSettled : Settled document writer.tables)
    (hFresh :
      ∀ row ∈ writer.tables.heritage,
        row.documentUri ≠ document.uri) :
    ∃ writer',
      writeHeritage surroundings document writer =
        Except.ok writer' := by
  unfold writeHeritage
  cases hFacts : document.classHeritage with
  | none => exact ⟨writer, rfl⟩
  | some facts =>
    refine
      rows_total hCooperative
        (fun start chunk tables =>
          Settled document tables ∧
            ∃ rows,
              insertRows HeritageRow.key
                ((chunk.zipIdx start).map
                  (heritageRow document.uri
                    (directExports document)))
                tables.heritage = Except.ok rows)
        ?_ ⟨hSettled, ?_⟩
    · rintro start first second tables ⟨hStart, last, hLast⟩
      have hHeritage :=
        (additive_zipIdx (additive_insertRows HeritageRow.key)
          (heritageRow document.uri
            (directExports document))).append start first
          second tables.heritage
      rw [hHeritage] at hLast
      rcases bind_eq_ok.mp hLast with
        ⟨rows, hFirst, hSecond⟩
      exact
        ⟨{ tables with heritage := rows }, first.length,
          (insertHeritageChunk_iff hFacts hStart).mpr
            ⟨rfl, rows, hFirst, rfl⟩,
          hStart, last, hSecond⟩
    · refine ⟨_, insertRows_eq_ok_iff.mpr ⟨⟨?_, ?_⟩, rfl⟩⟩
      · exact
          nodup_zipIdx_key HeritageRow.key
            (heritageRow document.uri (directExports document))
            (fun _ => rfl) facts.classes 0
      · intro old hOld row hRow hSame
        rcases List.mem_map.mp hRow with ⟨entry, _, rfl⟩
        exact hFresh old hOld (Prod.mk.inj hSame).1

----------
-- Whole Documents
----------

theorem insertable_singleton
    (hLacks : tables.Lacks document.uri) :
    Insertable tables [document] := by
  refine ⟨?_, List.nodup_singleton _⟩
  intro other hOther
  rw [List.mem_singleton.mp hOther]
  exact hLacks

/- The tables with the final document row and no other. -/
def withBase
    (generation : Nat)
    (document : DocumentSymbols)
    (tables : CatalogTables) : CatalogTables :=
  { tables with
    documents :=
      tables.documents ++
        [settledDocumentRow generation document] }

theorem insertBase_eq
    (generation : Nat)
    (hLacks : tables.Lacks document.uri) :
    (insertCatalogDocuments generation
          [baseDocument document] tables >>=
        insertHeritageDocuments [baseDocument document]) =
      Except.ok (withBase generation document tables) := by
  have hNew : Insertable tables [baseDocument document] :=
    insertable_singleton hLacks
  rw [insertCatalogDocuments_eq hNew]
  refine
    (insertHeritageDocuments_eq hNew (by rfl) (by rfl)).trans ?_
  have hRow :
      settledDocumentRow generation (baseDocument document) =
        settledDocumentRow generation document := by
    unfold settledDocumentRow baseDocument
    cases document.classHeritage <;> rfl
  have hClasses :
      documentHeritageRows 0 (baseDocument document) = [] := by
    unfold documentHeritageRows baseDocument
    cases document.classHeritage <;> rfl
  rw [List.map_singleton, List.flatMap_singleton, hRow,
    hClasses, List.append_nil]
  rfl

theorem settled_withBase
    (hLacks : tables.Lacks document.uri) :
    Settled document
      (withBase generation document tables) := by
  unfold Settled withBase
  simp only
  rw [settleDocument_append,
    settleDocument_of_lacks hLacks.documents,
    settleDocument_settled]

variable {surroundings : Surroundings}

theorem writeBase_spec
    (hLacks : writer.tables.Lacks document.uri)
    (hWrite :
      writeBase surroundings generation document writer =
        Except.ok writer') :
    generation < 2 ^ 63 ∧
      writer'.tables =
        withBase generation document writer.tables := by
  unfold writeBase at hWrite
  rcases bind_eq_ok.mp hWrite with ⟨sql, hSql, hRest⟩
  rcases sqliteGeneration_eq_ok.mp hSql with
    ⟨hBound, hSame⟩
  rw [hSame] at hRest
  rcases bind_eq_ok.mp hRest with
    ⟨middle, hDocuments, hRest⟩
  rcases bind_eq_ok.mp hRest with
    ⟨tables, hHeritage, hRest⟩
  rcases bind_eq_ok.mp hRest with ⟨emitted, _, hPure⟩
  have hBase :
      (insertCatalogDocuments generation
            [baseDocument document] writer.tables >>=
          insertHeritageDocuments [baseDocument document]) =
        Except.ok tables :=
    bind_eq_ok.mpr ⟨middle, hDocuments, hHeritage⟩
  rw [insertBase_eq _ hLacks] at hBase
  injection hBase with hBase
  rw [← pure_eq_ok.mp hPure, hBase]
  exact ⟨hBound, rfl⟩

theorem writeBase_total
    (hCooperative : surroundings.Cooperative)
    (hGeneration : generation < 2 ^ 63)
    (hLacks : writer.tables.Lacks document.uri) :
    ∃ writer',
      writeBase surroundings generation document writer =
        Except.ok writer' := by
  rcases bind_eq_ok.mp
      (insertBase_eq generation hLacks) with
    ⟨middle, hDocuments, hHeritage⟩
  rcases emit_total hCooperative .committing writer with
    ⟨emitted, hEmitted⟩
  exact
    ⟨_, bind_eq_ok.mpr
      ⟨generation,
        sqliteGeneration_eq_ok.mpr ⟨hGeneration, rfl⟩,
        bind_eq_ok.mpr ⟨middle, hDocuments,
          bind_eq_ok.mpr ⟨_, hHeritage,
            bind_eq_ok.mpr ⟨emitted, hEmitted, rfl⟩⟩⟩⟩⟩

/- The identities of a document, whatever the chunks were. -/
theorem perm_identityRows
    {uri : String}
    {occurrences : List ReferenceOccurrence}
    {table added : List IdentityRow}
    (hTable : ∀ row ∈ table, row.documentUri ≠ uri)
    (hNodup : added.Nodup)
    (hAdded :
      ∀ row,
        row ∈ added ↔
          row ∈ identityRows uri occurrences ∧
            row ∉ table) :
    added.Perm (identityRows uri occurrences) := by
  refine
    (List.perm_ext_iff_of_nodup hNodup
      (nodup_identityRows uri occurrences)).mpr ?_
  intro row
  rw [hAdded]
  refine and_iff_left_of_imp fun hRow hOld => ?_
  rcases mem_identityRows.mp hRow with ⟨_, _, rfl⟩
  exact hTable _ hOld rfl

/- A document written in chunks has the rows it stands for. -/
theorem write_spec
    (hLacks : writer.tables.Lacks document.uri)
    (hWrite :
      write surroundings unicode generation document writer =
        Except.ok writer') :
    ExportsDistinct document ∧
      writer'.tables.SameRows
        (writer.tables.append
          (documentTables unicode generation document)) := by
  unfold write at hWrite
  rcases bind_eq_ok.mp hWrite with ⟨first, hBase, hWrite⟩
  rcases bind_eq_ok.mp hWrite with ⟨second, hSymbols, hWrite⟩
  rcases bind_eq_ok.mp hWrite with ⟨third, hExports, hWrite⟩
  rcases bind_eq_ok.mp hWrite with
    ⟨fourth, hOccurrences, hWrite⟩
  rcases bind_eq_ok.mp hWrite with ⟨fifth, hAliases, hWrite⟩
  rcases bind_eq_ok.mp hWrite with
    ⟨sixth, hBindings, hHeritage⟩
  rcases writeBase_spec hLacks hBase with ⟨hBound, hFirst⟩
  rcases
    rows_table_spec
      (additive_zipIdx (additive_insertRows SymbolRow.key)
        (symbolRow unicode document.uri))
      (fills_symbols unicode document) hSymbols with
    ⟨symbols, hSymbolRows, hSecond⟩
  rcases
    rows_table_spec
      (additive_map (additive_insertRows ExportRow.key)
        (exportRow unicode generation document.uri))
      (fills_exports unicode hBound document) hExports with
    ⟨exports, hExportRows, hThird⟩
  rcases
    rows_spec (OccurrencesInserted document.uri)
      (compositional_occurrencesInserted document.uri)
      (fun _ _ _ _ _ => occurrencesInserted_of_chunk)
      hOccurrences with
    ⟨occurrences, added, hOccurrenceRows, hNodup, hAdded, hFourth⟩
  rcases
    rows_table_spec
      (additive_zipIdx (additive_insertRows AliasRow.key)
        (aliasRow document.uri))
      (fills_aliases document) hAliases with
    ⟨aliases, hAliasRows, hFifth⟩
  rcases
    rows_table_spec
      (additive_zipIdx (additive_insertRows BindingRow.key)
        (bindingRow document.uri))
      (fills_bindings document) hBindings with
    ⟨bindings, hBindingRows, hSixth⟩
  have hSettled : Settled document sixth.tables := by
    rw [hSixth, hFifth, hFourth, hThird, hSecond, hFirst]
    exact settled_withBase hLacks
  have hLast := writeHeritage_spec hSettled hHeritage
  rcases insertRows_eq_ok_iff.mp hSymbolRows with
    ⟨_, hSymbolRows⟩
  rcases insertRows_eq_ok_iff.mp hExportRows with
    ⟨⟨hExportKeys, _⟩, hExportRows⟩
  rcases insertRows_eq_ok_iff.mp hOccurrenceRows with
    ⟨_, hOccurrenceRows⟩
  rcases insertRows_eq_ok_iff.mp hAliasRows with
    ⟨_, hAliasRows⟩
  rcases insertRows_eq_ok_iff.mp hBindingRows with
    ⟨_, hBindingRows⟩
  rw [hFifth, hFourth, hThird, hSecond, hFirst] at hBindingRows
  rw [hFourth, hThird, hSecond, hFirst] at hAliasRows
  rw [hThird, hSecond, hFirst] at hOccurrenceRows hAdded
  rw [hSecond, hFirst] at hExportRows
  rw [hFirst] at hSymbolRows
  have hIdentities :=
    perm_identityRows hLacks.identities hNodup hAdded
  refine ⟨(nodup_exportKeys_iff unicode).mp hExportKeys, ?_⟩
  rw [hLast, hSixth, hFifth, hFourth, hThird, hSecond, hFirst,
    hBindingRows, hAliasRows, hOccurrenceRows, hExportRows,
    hSymbolRows]
  exact
    ⟨rfl, rfl, rfl, rfl, hIdentities.append_left _, rfl, rfl, rfl⟩

/- Numbered rows of a new document fit into its table. -/
theorem numbered_total
    {α Row : Type}
    (key : Row → String × Nat)
    (row : α × Nat → Row)
    {uri : String}
    (hKey : ∀ entry, key (row entry) = (uri, entry.2))
    {table : List Row}
    (hFresh : ∀ old ∈ table, (key old).1 ≠ uri)
    (items : List α) :
    insertRows key ((items.zipIdx 0).map row) table =
      Except.ok (table ++ (items.zipIdx 0).map row) := by
  refine insertRows_eq_ok_iff.mpr ⟨⟨?_, ?_⟩, rfl⟩
  · exact nodup_zipIdx_key key row hKey items 0
  · intro old hOld other hOther hSame
    rcases List.mem_map.mp hOther with ⟨entry, _, rfl⟩
    apply hFresh old hOld
    rw [hSame, hKey]

theorem occurrences_total
    (hCooperative : surroundings.Cooperative)
    (document : DocumentSymbols)
    (size : ReferenceOccurrence → Nat)
    (uriBytes : Nat)
    (writer : Writer)
    (hFresh :
      ∀ old ∈ writer.tables.occurrences,
        old.documentUri ≠ document.uri) :
    ∃ writer',
      rows surroundings document.occurrences size uriBytes
          (insertOccurrenceChunk document) writer =
        Except.ok writer' := by
  refine
    rows_total hCooperative
      (fun start chunk tables =>
        ∃ rows,
          insertRows OccurrenceRow.key
              ((chunk.zipIdx start).map
                (occurrenceRow document.uri))
              tables.occurrences = Except.ok rows)
      ?_
      ⟨_, numbered_total OccurrenceRow.key
        (occurrenceRow document.uri) (fun _ => rfl) hFresh
        document.occurrences⟩
  rintro start first second tables ⟨last, hLast⟩
  have hAppend :=
    (additive_zipIdx (additive_insertRows OccurrenceRow.key)
      (occurrenceRow document.uri)).append start first second
      tables.occurrences
  rw [hAppend] at hLast
  rcases bind_eq_ok.mp hLast with ⟨rows, hFirst, hSecond⟩
  rcases insertOccurrenceChunk_total hFirst with
    ⟨tables', count, hInsert, rfl⟩
  exact ⟨tables', count, hInsert, last, hSecond⟩

/- Nothing in the chunks can fail that the whole allows. -/
theorem write_total
    (hCooperative : surroundings.Cooperative)
    (hGeneration : generation < 2 ^ 63)
    (hExports : ExportsDistinct document)
    (hLacks : writer.tables.Lacks document.uri) :
    ∃ writer',
      write surroundings unicode generation document writer =
        Except.ok writer' := by
  rcases
    writeBase_total hCooperative hGeneration hLacks with
    ⟨first, hBase⟩
  rcases writeBase_spec hLacks hBase with ⟨_, hFirst⟩
  have hSymbolRows :=
    additive_zipIdx (additive_insertRows SymbolRow.key)
      (symbolRow unicode document.uri)
  have hSymbolsFresh :
      ∀ old ∈ first.tables.symbols,
        old.documentUri ≠ document.uri := by
    rw [hFirst]
    exact hLacks.symbols
  rcases
    rows_table_total hCooperative hSymbolRows
      (fills_symbols unicode document)
      (numbered_total SymbolRow.key
        (symbolRow unicode document.uri) (fun _ => rfl)
        hSymbolsFresh document.symbols) with
    ⟨second, hSymbols⟩
  rcases
    rows_table_spec hSymbolRows
      (fills_symbols unicode document) hSymbols with
    ⟨symbols, _, hSecond⟩
  have hExportRows :=
    additive_map (additive_insertRows ExportRow.key)
      (exportRow unicode generation document.uri)
  have hExportsFit :
      insertRows ExportRow.key
          (document.exports.map
            (exportRow unicode generation document.uri))
          second.tables.exports =
        Except.ok
          (second.tables.exports ++
            document.exports.map
              (exportRow unicode generation document.uri)) := by
    refine insertRows_eq_ok_iff.mpr ⟨⟨?_, ?_⟩, rfl⟩
    · exact (nodup_exportKeys_iff unicode).mpr hExports
    · rw [hSecond, hFirst]
      intro old hOld row hRow hSame
      rcases List.mem_map.mp hRow with ⟨item, _, rfl⟩
      exact hLacks.exports old hOld (Prod.mk.inj hSame).1
  rcases
    rows_table_total hCooperative hExportRows
      (fills_exports unicode hGeneration document)
      hExportsFit with
    ⟨third, hExports⟩
  rcases
    rows_table_spec hExportRows
      (fills_exports unicode hGeneration document)
      hExports with
    ⟨exports, _, hThird⟩
  rcases
    occurrences_total hCooperative document
      (fun item =>
        2 *
          (byteLength item.name + optionalLength item.qualifier))
      (byteLength document.uri * 2) third (by
        rw [hThird, hSecond, hFirst]
        exact hLacks.occurrences) with
    ⟨fourth, hOccurrences⟩
  rcases
    rows_spec (OccurrencesInserted document.uri)
      (compositional_occurrencesInserted document.uri)
      (fun _ _ _ _ _ => occurrencesInserted_of_chunk)
      hOccurrences with
    ⟨occurrences, added, _, _, _, hFourth⟩
  have hAliasRows :=
    additive_zipIdx (additive_insertRows AliasRow.key)
      (aliasRow document.uri)
  have hAliasesFresh :
      ∀ old ∈ fourth.tables.aliases,
        old.documentUri ≠ document.uri := by
    rw [hFourth, hThird, hSecond, hFirst]
    exact hLacks.aliases
  rcases
    rows_table_total hCooperative hAliasRows
      (fills_aliases document)
      (numbered_total AliasRow.key (aliasRow document.uri)
        (fun _ => rfl) hAliasesFresh document.aliases) with
    ⟨fifth, hAliases⟩
  rcases
    rows_table_spec hAliasRows (fills_aliases document)
      hAliases with
    ⟨aliases, _, hFifth⟩
  have hBindingRows :=
    additive_zipIdx (additive_insertRows BindingRow.key)
      (bindingRow document.uri)
  have hBindingsFresh :
      ∀ old ∈ fifth.tables.bindings,
        old.documentUri ≠ document.uri := by
    rw [hFifth, hFourth, hThird, hSecond, hFirst]
    exact hLacks.bindings
  rcases
    rows_table_total hCooperative hBindingRows
      (fills_bindings document)
      (numbered_total BindingRow.key
        (bindingRow document.uri) (fun _ => rfl)
        hBindingsFresh document.bindings) with
    ⟨sixth, hBindings⟩
  rcases
    rows_table_spec hBindingRows (fills_bindings document)
      hBindings with
    ⟨bindings, _, hSixth⟩
  have hSettled : Settled document sixth.tables := by
    rw [hSixth, hFifth, hFourth, hThird, hSecond, hFirst]
    exact settled_withBase hLacks
  have hHeritageFresh :
      ∀ row ∈ sixth.tables.heritage,
        row.documentUri ≠ document.uri := by
    rw [hSixth, hFifth, hFourth, hThird, hSecond, hFirst]
    exact hLacks.heritage
  rcases
    writeHeritage_total hCooperative hSettled hHeritageFresh with
    ⟨last, hHeritage⟩
  refine ⟨last, ?_⟩
  unfold write
  refine bind_eq_ok.mpr ⟨first, hBase, ?_⟩
  refine bind_eq_ok.mpr ⟨second, hSymbols, ?_⟩
  refine bind_eq_ok.mpr ⟨third, hExports, ?_⟩
  refine bind_eq_ok.mpr ⟨fourth, hOccurrences, ?_⟩
  refine bind_eq_ok.mpr ⟨fifth, hAliases, ?_⟩
  exact bind_eq_ok.mpr ⟨sixth, hBindings, hHeritage⟩

end Vectors

end CatalogDocument

end Store

end ArktsServer
