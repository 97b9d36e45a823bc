import ArktsServer.Core.Types
import ArktsServer.Lib.Chunking

/-
  The tables of one index database.  A table is the list of
  its rows in insertion order; a primary key is a function
  of the row that no two rows of the table share, and an
  insertion that would break it fails.

  The full-text index over the symbol names is maintained by
  triggers on the symbol table and holds nothing of its own,
  so it is not a table here.

  Key definitions include:
    * `DocumentRow`, `SymbolRow`, `ExportRow`, ...
    * `CatalogTables`, `CatalogTables.append`, `SameRows`
    * `insertRows`, `insertRowsIgnoring`

  Correctness is proven by:
    * `insertRows_eq_ok_iff`
    * `insertRowsIgnoring_id`
-/

----------
-- Rows
----------

namespace ArktsServer

namespace Store

structure DocumentRow where
  uri : String
  generation : Nat
  heritageLexicallyComplete : Option Bool
  classBindingsSourceSupported : Option Bool
deriving DecidableEq

structure SymbolRow where
  documentUri : String
  ordinal : Nat
  name : String
  nameFolded : String
  acronymFolded : String
  kind : Nat
  container : Option String
  range : TextRange
deriving DecidableEq

structure ExportRow where
  documentUri : String
  generation : Nat
  ordinal : Nat
  exportedName : String
  referenceExportName : Option String
  nameFolded : String
  symbolKind : Nat
  declarationIdentity : Option String
  importSpecifier : Option String
  moduleId : Option String
  targetScope : Option String
  range : TextRange
  referenceSearchable : Bool
deriving DecidableEq

structure OccurrenceRow where
  documentUri : String
  ordinal : Nat
  name : String
  range : TextRange
  qualified : Option Bool
deriving DecidableEq

structure IdentityRow where
  documentUri : String
  name : String
  qualification : Int
  qualifier : String
deriving DecidableEq

structure AliasRow where
  documentUri : String
  ordinal : Nat
  fromName : String
  toName : String
deriving DecidableEq

structure BindingRow where
  documentUri : String
  ordinal : Nat
  importedName : String
  localName : String
  sourceSpecifier : String
  kind : Nat
deriving DecidableEq

/- The base columns are null together or not at all. -/
structure HeritageRow where
  documentUri : String
  ordinal : Nat
  name : String
  nameRange : TextRange
  declarationRange : TextRange
  base : Option ClassHeritageBase
  isDirectExport : Bool
deriving DecidableEq

----------
-- Tables
----------

structure CatalogTables where
  documents : List DocumentRow
  symbols : List SymbolRow
  exports : List ExportRow
  occurrences : List OccurrenceRow
  identities : List IdentityRow
  aliases : List AliasRow
  bindings : List BindingRow
  heritage : List HeritageRow
deriving DecidableEq

namespace CatalogTables

/- A database right after its schema was created. -/
def empty : CatalogTables :=
  ⟨[], [], [], [], [], [], [], []⟩

/- The rows of one set of tables after those of another. -/
def append (first second : CatalogTables) :
    CatalogTables where
  documents := first.documents ++ second.documents
  symbols := first.symbols ++ second.symbols
  exports := first.exports ++ second.exports
  occurrences := first.occurrences ++ second.occurrences
  identities := first.identities ++ second.identities
  aliases := first.aliases ++ second.aliases
  bindings := first.bindings ++ second.bindings
  heritage := first.heritage ++ second.heritage

@[simp] theorem append_empty (tables : CatalogTables) :
    tables.append empty = tables := by
  simp [append, empty]

@[simp] theorem empty_append (tables : CatalogTables) :
    empty.append tables = tables := by
  simp [append, empty]

theorem append_assoc
    (first second third : CatalogTables) :
    (first.append second).append third =
      first.append (second.append third) := by
  simp [append]

/-
  The same rows: every table lists the same rows in the same
  order, apart from the occurrence identities, whose only
  key is the whole row.
-/
structure SameRows (left right : CatalogTables) : Prop where
  documents : left.documents = right.documents
  symbols : left.symbols = right.symbols
  exports : left.exports = right.exports
  occurrences : left.occurrences = right.occurrences
  identities : left.identities.Perm right.identities
  aliases : left.aliases = right.aliases
  bindings : left.bindings = right.bindings
  heritage : left.heritage = right.heritage

namespace SameRows

theorem refl (tables : CatalogTables) :
    SameRows tables tables :=
  ⟨rfl, rfl, rfl, rfl, List.Perm.refl _, rfl, rfl, rfl⟩

theorem symm
    {left right : CatalogTables}
    (hSame : SameRows left right) :
    SameRows right left :=
  ⟨hSame.documents.symm, hSame.symbols.symm,
    hSame.exports.symm, hSame.occurrences.symm,
    hSame.identities.symm, hSame.aliases.symm,
    hSame.bindings.symm, hSame.heritage.symm⟩

theorem trans
    {first second third : CatalogTables}
    (hFirst : SameRows first second)
    (hSecond : SameRows second third) :
    SameRows first third :=
  ⟨hFirst.documents.trans hSecond.documents,
    hFirst.symbols.trans hSecond.symbols,
    hFirst.exports.trans hSecond.exports,
    hFirst.occurrences.trans hSecond.occurrences,
    hFirst.identities.trans hSecond.identities,
    hFirst.aliases.trans hSecond.aliases,
    hFirst.bindings.trans hSecond.bindings,
    hFirst.heritage.trans hSecond.heritage⟩

theorem append
    {first first' second second' : CatalogTables}
    (hFirst : SameRows first first')
    (hSecond : SameRows second second') :
    SameRows (first.append second)
      (first'.append second') where
  documents :=
    congrArg₂ (· ++ ·) hFirst.documents hSecond.documents
  symbols := congrArg₂ (· ++ ·) hFirst.symbols hSecond.symbols
  exports := congrArg₂ (· ++ ·) hFirst.exports hSecond.exports
  occurrences :=
    congrArg₂ (· ++ ·) hFirst.occurrences hSecond.occurrences
  identities := hFirst.identities.append hSecond.identities
  aliases := congrArg₂ (· ++ ·) hFirst.aliases hSecond.aliases
  bindings := congrArg₂ (· ++ ·) hFirst.bindings hSecond.bindings
  heritage := congrArg₂ (· ++ ·) hFirst.heritage hSecond.heritage

end SameRows

/- No row of any table belongs to a document. -/
structure Lacks (tables : CatalogTables) (uri : String) :
    Prop where
  documents : ∀ row ∈ tables.documents, row.uri ≠ uri
  symbols : ∀ row ∈ tables.symbols, row.documentUri ≠ uri
  exports : ∀ row ∈ tables.exports, row.documentUri ≠ uri
  occurrences :
    ∀ row ∈ tables.occurrences, row.documentUri ≠ uri
  identities :
    ∀ row ∈ tables.identities, row.documentUri ≠ uri
  aliases : ∀ row ∈ tables.aliases, row.documentUri ≠ uri
  bindings : ∀ row ∈ tables.bindings, row.documentUri ≠ uri
  heritage : ∀ row ∈ tables.heritage, row.documentUri ≠ uri

theorem lacks_empty (uri : String) :
    empty.Lacks uri := by
  constructor <;> simp [empty]

theorem Lacks.append
    {first second : CatalogTables}
    {uri : String}
    (hFirst : first.Lacks uri)
    (hSecond : second.Lacks uri) :
    (first.append second).Lacks uri where
  documents :=
    List.forall_mem_append.mpr
      ⟨hFirst.documents, hSecond.documents⟩
  symbols :=
    List.forall_mem_append.mpr ⟨hFirst.symbols, hSecond.symbols⟩
  exports :=
    List.forall_mem_append.mpr ⟨hFirst.exports, hSecond.exports⟩
  occurrences :=
    List.forall_mem_append.mpr
      ⟨hFirst.occurrences, hSecond.occurrences⟩
  identities :=
    List.forall_mem_append.mpr
      ⟨hFirst.identities, hSecond.identities⟩
  aliases :=
    List.forall_mem_append.mpr ⟨hFirst.aliases, hSecond.aliases⟩
  bindings :=
    List.forall_mem_append.mpr ⟨hFirst.bindings, hSecond.bindings⟩
  heritage :=
    List.forall_mem_append.mpr ⟨hFirst.heritage, hSecond.heritage⟩

theorem Lacks.of_sameRows
    {left right : CatalogTables}
    {uri : String}
    (hSame : SameRows left right)
    (hLacks : left.Lacks uri) :
    right.Lacks uri where
  documents := hSame.documents ▸ hLacks.documents
  symbols := hSame.symbols ▸ hLacks.symbols
  exports := hSame.exports ▸ hLacks.exports
  occurrences := hSame.occurrences ▸ hLacks.occurrences
  identities := fun row hRow =>
    hLacks.identities row (hSame.identities.mem_iff.mpr hRow)
  aliases := hSame.aliases ▸ hLacks.aliases
  bindings := hSame.bindings ▸ hLacks.bindings
  heritage := hSame.heritage ▸ hLacks.heritage

end CatalogTables

----------
-- Insertions
----------

section Insertions

variable {Row Key : Type} [DecidableEq Key]

/- SQLite's answer to a duplicate primary key. -/
def constraintFailure : StoreError :=
  ⟨.internal,
    "SQLite index error: UNIQUE constraint failed"⟩

variable (key : Row → Key)

def insertRow
    (table : List Row)
    (row : Row) : Except StoreError (List Row) :=
  if table.any (fun old => decide (key old = key row)) then
    Except.error constraintFailure
  else
    Except.ok (table ++ [row])

/- One `INSERT` statement with any number of rows. -/
def insertRows
    (rows table : List Row) :
    Except StoreError (List Row) :=
  rows.foldlM (insertRow key) table

/- `INSERT ... ON CONFLICT DO NOTHING`. -/
def insertRowsIgnoring
    (rows table : List Row) : List Row :=
  rows.foldl
    (fun table row =>
      if table.any (fun old => decide (key old = key row))
      then table
      else table ++ [row])
    table

theorem additive_insertRows (key : Row → Key) :
    Chunking.Additive fun _ => insertRows key :=
  Chunking.additive_foldlM (insertRow key)

theorem insertRow_eq_ok_iff
    {key : Row → Key}
    {table table' : List Row}
    {row : Row} :
    insertRow key table row = Except.ok table' ↔
      (∀ old ∈ table, key old ≠ key row) ∧
        table' = table ++ [row] := by
  unfold insertRow
  by_cases hAny :
    table.any (fun old => decide (key old = key row)) = true
  · rw [if_pos hAny]
    constructor
    · intro hInsert
      cases hInsert
    · rintro ⟨hFresh, _⟩
      rcases List.any_eq_true.mp hAny with
        ⟨old, hOld, hKey⟩
      exact absurd (of_decide_eq_true hKey) (hFresh old hOld)
  · rw [if_neg hAny]
    have hFresh : ∀ old ∈ table, key old ≠ key row := by
      simpa using hAny
    constructor
    · intro hInsert
      injection hInsert with hTable
      exact ⟨hFresh, hTable.symm⟩
    · rintro ⟨_, rfl⟩
      rfl

/-
  Rows go in exactly when their keys are new to the table
  and differ among themselves, and they end up behind the
  old rows.
-/
theorem insertRows_eq_ok_iff
    {key : Row → Key}
    {rows table table' : List Row} :
    insertRows key rows table = Except.ok table' ↔
      ((rows.map key).Nodup ∧
        ∀ old ∈ table, ∀ row ∈ rows, key old ≠ key row) ∧
        table' = table ++ rows := by
  induction rows generalizing table with
  | nil =>
    unfold insertRows
    constructor
    · intro hInsert
      injection hInsert with hTable
      refine ⟨⟨List.nodup_nil, ?_⟩, ?_⟩
      · simp
      · rw [List.append_nil, hTable]
    · rintro ⟨_, rfl⟩
      rw [List.append_nil]
      rfl
  | cons row rows ih =>
    have hStep :
        insertRows key (row :: rows) table =
          insertRow key table row >>= insertRows key rows :=
      List.foldlM_cons
    rw [hStep, Chunking.bind_eq_ok]
    constructor
    · rintro ⟨middle, hRow, hInsert⟩
      rcases insertRow_eq_ok_iff.mp hRow with ⟨hFresh, rfl⟩
      rcases ih.mp hInsert with ⟨⟨hNodup, hRest⟩, rfl⟩
      have hNew :=
        hRest row
          (List.mem_append_right _ (List.mem_singleton_self row))
      refine ⟨⟨?_, ?_⟩, by simp⟩
      · refine List.nodup_cons.mpr ⟨?_, hNodup⟩
        intro hMem
        rcases List.mem_map.mp hMem with
          ⟨other, hOther, hKey⟩
        exact hNew other hOther hKey.symm
      · intro old hOld other hOther
        rcases List.mem_cons.mp hOther with rfl | hTail
        · exact hFresh old hOld
        · exact
            hRest old (List.mem_append_left _ hOld) other hTail
    · rintro ⟨⟨hNodup, hFresh⟩, rfl⟩
      rcases List.nodup_cons.mp hNodup with ⟨hRow, hRows⟩
      have hHead :
          insertRow key table row = Except.ok (table ++ [row]) :=
        insertRow_eq_ok_iff.mpr
          ⟨fun old hOld =>
            hFresh old hOld row List.mem_cons_self, rfl⟩
      refine ⟨_, hHead, ih.mpr ⟨⟨hRows, ?_⟩, by simp⟩⟩
      intro old hOld other hOther
      rcases List.mem_append.mp hOld with hTable | hNew
      · exact
          hFresh old hTable other (List.mem_cons_of_mem _ hOther)
      · rw [List.mem_singleton.mp hNew]
        intro hKey
        apply hRow
        rw [hKey]
        exact List.mem_map_of_mem hOther

theorem insertRowsIgnoring_cons
    (row : Row)
    (rows table : List Row) :
    insertRowsIgnoring key (row :: rows) table =
      insertRowsIgnoring key rows
        (if table.any (fun old => decide (key old = key row))
        then table
        else table ++ [row]) :=
  rfl

theorem insertRowsIgnoring_append
    (first second table : List Row) :
    insertRowsIgnoring key (first ++ second) table =
      insertRowsIgnoring key second
        (insertRowsIgnoring key first table) :=
  List.foldl_append

/-
  With the whole row as key, an ignoring insertion adds the
  rows that are new, each once.
-/
theorem insertRowsIgnoring_id
    [DecidableEq Row]
    (rows table : List Row) :
    ∃ added,
      insertRowsIgnoring id rows table = table ++ added ∧
        added.Nodup ∧
        ∀ row, row ∈ added ↔ row ∈ rows ∧ row ∉ table := by
  induction rows generalizing table with
  | nil =>
    refine ⟨[], ?_, List.nodup_nil, ?_⟩
    · rw [List.append_nil]
      rfl
    · simp
  | cons row rows ih =>
    rw [insertRowsIgnoring_cons]
    by_cases hOld : row ∈ table
    · rw [if_pos (by simpa using hOld)]
      rcases ih table with ⟨added, hTable, hNodup, hMem⟩
      refine ⟨added, hTable, hNodup, ?_⟩
      intro other
      rw [hMem, List.mem_cons]
      constructor
      · rintro ⟨hRows, hNew⟩
        exact ⟨Or.inr hRows, hNew⟩
      · rintro ⟨rfl | hRows, hNew⟩
        · exact absurd hOld hNew
        · exact ⟨hRows, hNew⟩
    · rw [if_neg (by simpa using hOld)]
      rcases ih (table ++ [row]) with
        ⟨added, hTable, hNodup, hMem⟩
      have hRow : row ∉ added := by
        rw [hMem]
        simp
      refine
        ⟨row :: added, ?_, List.nodup_cons.mpr ⟨hRow, hNodup⟩, ?_⟩
      · rw [hTable, List.append_assoc]
        rfl
      · intro other
        rw [List.mem_cons, hMem, List.mem_append,
          List.mem_singleton, List.mem_cons]
        by_cases hEq : other = row
        · subst hEq
          tauto
        · tauto

end Insertions

end Store

end ArktsServer
