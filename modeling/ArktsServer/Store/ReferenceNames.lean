import ArktsServer.Core.MemoryStore
import ArktsServer.Store.CatalogInsert

/-
  The alias names of a declaration, as SQLite computes them:
  by one recursive query over all bindings, or name by name
  over the bindings of the admitted documents.  Both find
  the names that the memory store finds.

  Key definitions include:
    * `recursiveReferenceNames`
    * `scopedReferenceNames`
    * `supportedNames`

  Correctness is proven by:
    * `referenceNames_computes`
    * `aliasClosures_agree`
    * `referenceNames_closed`
-/

----------
-- Queries
----------

namespace ArktsServer

namespace Store

open Components

/- Too many names make a query unsupported. -/
def supportedNames
    (names : List String) : Option (List String) :=
  if MemoryStore.maxReferenceAliasNames < names.length then
    none
  else
    some names

/- The `edges` of the query; `UNION` removes duplicates. -/
def recursiveEdges
    (bindings : List BindingRow) : List (String × String) :=
  (bindings.map (fun row => (row.importedName, row.localName))
    ++ bindings.map
      (fun row => (row.localName, row.importedName))).dedup

variable (bindings : List BindingRow)

/- `SELECT edges.target` for one row of the queue. -/
def recursiveTargets
    (name : String) : List String :=
  ((recursiveEdges bindings).filter (·.1 = name)).map (·.2)

def bindingNames
    (bindings : List BindingRow) : List String :=
  bindings.map (·.importedName) ++ bindings.map (·.localName)

/-
  The recursive query.  Its rows wait in a queue, and a row
  that was there before is discarded.
-/
def recursiveNames
    (referenceExportName declarationName : String) :
    OrderedSet String :=
  let seeds := [referenceExportName, declarationName].dedup
  explore .queue none (recursiveTargets bindings)
    ((bindingNames bindings).length + seeds.length + 1)
    (Worklist.start seeds)

variable (tables : CatalogTables)

/- `read_reference_names`, ordered and limited. -/
def readReferenceNames
    (referenceExportName declarationName : String) :
    List String :=
  (recursiveNames tables.bindings referenceExportName
    declarationName).toList.take
      (MemoryStore.maxReferenceAliasNames + 1)

/- The rows of a prepared statement, in its order. -/
def orderedRows
    (rows : List (String × String)) :
    List (String × String) :=
  rows.insertionSort fun left right =>
    toLex left ≤ toLex right

/- The names next to a name, with their documents. -/
def bindingNeighbors
    (name : String) : List (String × String) :=
  orderedRows
      ((bindings.filter (·.importedName = name)).map
        fun row => (row.documentUri, row.localName))
    ++ orderedRows
      ((bindings.filter (·.localName = name)).map
        fun row => (row.documentUri, row.importedName))

def admittedNeighbors
    (declarationUri : String)
    (admittedUriRoots : List String)
    (name : String) : List String :=
  ((bindingNeighbors bindings name).filter fun entry =>
    referenceUriAdmitted entry.1 declarationUri
      admittedUriRoots).map (·.2)

/-
  `read_scoped_reference_names`.  The last pending name is
  looked at next, and the search stops above the maximum.
-/
def readScopedReferenceNames
    (seedNames : List String)
    (declarationUri : String)
    (admittedUriRoots : List String) : List String :=
  (explore .stack (some MemoryStore.maxReferenceAliasNames)
    (admittedNeighbors tables.bindings declarationUri
      admittedUriRoots)
    ((bindingNames tables.bindings).length
      + seedNames.reverse.length + 1)
    (Worklist.start seedNames.reverse)).toList

def recursiveReferenceNames
    (referenceExportName exportedName : String) :
    Option (List String) :=
  supportedNames
    (readReferenceNames tables referenceExportName
      exportedName)

def scopedReferenceNames
    (referenceExportName exportedName declarationUri : String)
    (admittedUriRoots : List String) :
    Option (List String) :=
  supportedNames
    (readScopedReferenceNames tables
      [referenceExportName, exportedName] declarationUri
      admittedUriRoots)

----------
-- Edges
----------

/- The pairs of the rows of the admitted documents. -/
def admittedEdges
    (declarationUri : String)
    (admittedUriRoots : List String) :
    List (String × String) :=
  (bindings.filter fun row =>
    referenceUriAdmitted row.documentUri declarationUri
      admittedUriRoots).map
        fun row => (row.importedName, row.localName)

theorem mem_recursiveTargets
    {bindings : List BindingRow}
    {left right : String} :
    right ∈ recursiveTargets bindings left ↔
      Linked
        (bindings.map
          fun row => (row.importedName, row.localName))
        left right := by
  have hEdge :
      right ∈ recursiveTargets bindings left ↔
        (left, right) ∈ recursiveEdges bindings := by
    unfold recursiveTargets
    simp only [List.mem_map, List.mem_filter, decide_eq_true_eq]
    constructor
    · rintro ⟨⟨first, second⟩, ⟨hMem, rfl⟩, rfl⟩
      exact hMem
    · intro hMem
      exact ⟨(left, right), ⟨hMem, rfl⟩, rfl⟩
  rw [hEdge]
  unfold recursiveEdges Linked
  simp only [List.mem_dedup, List.mem_append, List.mem_map,
    Prod.mk.injEq]
  constructor
  · rintro (⟨row, hRow, hFirst, hSecond⟩ |
      ⟨row, hRow, hFirst, hSecond⟩)
    · exact Or.inl ⟨row, hRow, hFirst, hSecond⟩
    · exact Or.inr ⟨row, hRow, hSecond, hFirst⟩
  · rintro (⟨row, hRow, hFirst, hSecond⟩ |
      ⟨row, hRow, hFirst, hSecond⟩)
    · exact Or.inl ⟨row, hRow, hFirst, hSecond⟩
    · exact Or.inr ⟨row, hRow, hSecond, hFirst⟩

theorem mem_orderedRows
    {rows : List (String × String)}
    {row : String × String} :
    row ∈ orderedRows rows ↔ row ∈ rows :=
  (List.perm_insertionSort _ rows).mem_iff

theorem mem_admittedNeighbors
    {bindings : List BindingRow}
    {declarationUri : String}
    {roots : List String}
    {left right : String} :
    right
        ∈ admittedNeighbors bindings declarationUri roots
          left ↔
      Linked (admittedEdges bindings declarationUri roots)
        left right := by
  unfold admittedNeighbors bindingNeighbors Linked admittedEdges
  simp only [List.mem_map, List.mem_filter, List.mem_append,
    mem_orderedRows, decide_eq_true_eq, Prod.mk.injEq]
  constructor
  · rintro ⟨⟨uri, name⟩,
      ⟨⟨row, ⟨hRow, hLeft⟩, hEq⟩ |
        ⟨row, ⟨hRow, hLeft⟩, hEq⟩, hAdmitted⟩, rfl⟩
    · cases hEq
      exact Or.inl ⟨row, ⟨hRow, hAdmitted⟩, hLeft, rfl⟩
    · cases hEq
      exact Or.inr ⟨row, ⟨hRow, hAdmitted⟩, rfl, hLeft⟩
  · rintro (⟨row, ⟨hRow, hAdmitted⟩, hLeft, hRight⟩ |
      ⟨row, ⟨hRow, hAdmitted⟩, hRight, hLeft⟩)
    · exact
        ⟨(row.documentUri, right),
          ⟨Or.inl ⟨row, ⟨hRow, hLeft⟩, by rw [hRight]⟩,
            hAdmitted⟩, rfl⟩
    · exact
        ⟨(row.documentUri, right),
          ⟨Or.inr ⟨row, ⟨hRow, hLeft⟩, by rw [hRight]⟩,
            hAdmitted⟩, rfl⟩

theorem mem_bindingNames
    {bindings : List BindingRow}
    {row : BindingRow}
    (hRow : row ∈ bindings) :
    row.importedName ∈ bindingNames bindings
      ∧ row.localName ∈ bindingNames bindings :=
  ⟨List.mem_append_left _
      (List.mem_map_of_mem (f := (·.importedName)) hRow),
    List.mem_append_right _
      (List.mem_map_of_mem (f := (·.localName)) hRow)⟩

/- Linked names are names of rows. -/
theorem linked_bindingNames
    {bindings rows : List BindingRow}
    (hRows : ∀ row ∈ rows, row ∈ bindings)
    {left right : String}
    (hLinked :
      Linked
        (rows.map fun row => (row.importedName, row.localName))
        left right) :
    right ∈ bindingNames bindings := by
  rcases hLinked with hEdge | hEdge
  · rcases List.mem_map.mp hEdge with ⟨row, hRow, hEq⟩
    cases hEq
    exact (mem_bindingNames (hRows row hRow)).2
  · rcases List.mem_map.mp hEdge with ⟨row, hRow, hEq⟩
    cases hEq
    exact (mem_bindingNames (hRows row hRow)).1

/- The rows of documents have the pairs of their bindings. -/
theorem mem_admittedEdges
    (unicode : Unicode)
    {documents : List DocumentSymbols}
    {generation : Nat}
    {declarationUri : String}
    {roots : List String}
    {edge : String × String} :
    edge
        ∈ admittedEdges
          (documentsTables unicode generation
            documents).bindings
          declarationUri roots ↔
      edge
        ∈ ((documents.filter fun document =>
            referenceUriAdmitted document.uri declarationUri
              roots).flatMap (·.bindings)).map
          MemoryStore.bindingEdge := by
  unfold admittedEdges documentsTables
  simp only [List.mem_map, List.mem_filter, List.mem_flatMap,
    bindingRows]
  constructor
  · rintro ⟨row, ⟨⟨document, hDocument, entry, hEntry, rfl⟩,
      hAdmitted⟩, rfl⟩
    exact
      ⟨entry.1,
        ⟨document, ⟨hDocument, hAdmitted⟩,
          List.fst_mem_of_mem_zipIdx hEntry⟩, rfl⟩
  · rintro ⟨binding, ⟨document, ⟨hDocument, hAdmitted⟩,
      hBinding⟩, rfl⟩
    rcases List.mem_iff_getElem?.mp hBinding with
      ⟨index, hIndex⟩
    refine
      ⟨_, ⟨⟨document, hDocument, (binding, index), ?_, rfl⟩,
        hAdmitted⟩, rfl⟩
    simpa using List.mk_mem_zipIdx_iff_getElem?.mpr hIndex

----------
-- Agreement
----------

/- The memory store's loop finds the component. -/
theorem referenceNames_computes
    (store : MemoryStore)
    (exportedName referenceExportName declarationUri : String)
    (roots : List String) :
    Computes
      ((store.admittedBindings declarationUri roots).map
        MemoryStore.bindingEdge)
      [exportedName, referenceExportName]
      MemoryStore.maxReferenceAliasNames
      (store.referenceNames exportedName referenceExportName
        declarationUri roots) := by
  apply settle_computes
  · exact fun seed hSeed => OrderedSet.mem_ofList.mpr hSeed
  · exact fun item hItem =>
      Component.seed (OrderedSet.mem_ofList.mp hItem)
  · have hSub :
        (OrderedSet.ofList
          [exportedName, referenceExportName]).toList.Subperm
          [exportedName, referenceExportName] :=
      (OrderedSet.nodup _).subperm fun item hItem =>
        OrderedSet.mem_ofList.mp hItem
    have hTwo : 2 ≤ MemoryStore.maxReferenceAliasNames := by
      decide
    exact Nat.le_trans hSub.length_le hTwo
  · omega

theorem supportedNames_eq
    (names : OrderedSet String) :
    supportedNames names.toList =
      (if MemoryStore.maxReferenceAliasNames < names.length
        then none
        else some names).map OrderedSet.toList := by
  unfold supportedNames OrderedSet.length
  split <;> rfl

/- Reading one name too many is enough to see the excess. -/
theorem supportedNames_take
    (names : List String) :
    supportedNames
        (names.take (MemoryStore.maxReferenceAliasNames + 1))
      = supportedNames names := by
  unfold supportedNames
  rw [List.length_take]
  by_cases hLarge :
      MemoryStore.maxReferenceAliasNames < names.length
  · rw [if_pos hLarge, if_pos (by omega)]
  · rw [if_neg hLarge, if_neg (by omega),
      List.take_of_length_le (by omega)]

theorem scopedReferenceNames_computes
    (declarationUri : String)
    (roots seeds : List String) :
    Computes
      (admittedEdges bindings declarationUri roots) seeds
      MemoryStore.maxReferenceAliasNames
      (let names :=
        explore .stack
          (some MemoryStore.maxReferenceAliasNames)
          (admittedNeighbors bindings declarationUri roots)
          ((bindingNames bindings).length + seeds.length + 1)
          (Worklist.start seeds)
      if MemoryStore.maxReferenceAliasNames < names.length
      then none
      else some names) := by
  apply explore_computes
  · intro other hOther
    cases hOther
    rfl
  · refine ⟨fun _ _ => mem_admittedNeighbors, ?_⟩
    intro left right hMem
    exact
      linked_bindingNames
        (fun _ hRow => (List.mem_filter.mp hRow).1)
        (mem_admittedNeighbors.mp hMem)

theorem recursiveReferenceNames_computes
    (seeds : List String) :
    Computes
      (bindings.map
        fun row => (row.importedName, row.localName))
      seeds MemoryStore.maxReferenceAliasNames
      (let names :=
        explore .queue none (recursiveTargets bindings)
          ((bindingNames bindings).length + seeds.length + 1)
          (Worklist.start seeds)
      if MemoryStore.maxReferenceAliasNames < names.length
      then none
      else some names) := by
  apply explore_computes
  · intro other hOther
    cases hOther
  · refine ⟨fun _ _ => mem_recursiveTargets, ?_⟩
    intro left right hMem
    exact
      linked_bindingNames (fun _ hRow => hRow)
        (mem_recursiveTargets.mp hMem)

theorem admittedEdges_nil
    (declarationUri : String) :
    admittedEdges bindings declarationUri [] =
      bindings.map
        fun row => (row.importedName, row.localName) := by
  unfold admittedEdges
  rw [List.filter_eq_self.mpr]
  intro row _
  simp [referenceUriAdmitted]

/-
  On every set of documents the three computations find the
  names that the bindings of the admitted documents connect
  with the declaration's, whatever order the documents are
  iterated in, and give up exactly when there are too many.
  The recursive query knows no roots.
-/
theorem aliasClosures_agree
    (unicode : Unicode)
    (documents : DocumentMap)
    (generation : Nat)
    (exportedName referenceExportName declarationUri : String)
    (admittedUriRoots : List String) :
    let store : MemoryStore := { documents := documents }
    let tables :=
      documentsTables unicode generation documents.values
    let names :=
      store.referenceNames exportedName referenceExportName
        declarationUri admittedUriRoots
    Computes
        ((store.admittedBindings declarationUri
          admittedUriRoots).map MemoryStore.bindingEdge)
        [exportedName, referenceExportName]
        MemoryStore.maxReferenceAliasNames names
      ∧ (∀ values hPerm,
        MemoryStore.referenceNames
            { documents := documents.reorder values hPerm }
            exportedName referenceExportName declarationUri
            admittedUriRoots
          = names)
      ∧ scopedReferenceNames tables referenceExportName
          exportedName declarationUri admittedUriRoots
        = names.map OrderedSet.toList
      ∧ (admittedUriRoots = [] →
        recursiveReferenceNames tables referenceExportName
            exportedName
          = names.map OrderedSet.toList) := by
  intro store tables names
  have hNames :=
    referenceNames_computes store exportedName
      referenceExportName declarationUri admittedUriRoots
  refine ⟨hNames, ?_, ?_, ?_⟩
  · intro values hPerm
    refine
      (referenceNames_computes _ exportedName
        referenceExportName declarationUri
        admittedUriRoots).agree hNames ?_ fun _ => Iff.rfl
    intro edge
    refine (((hPerm.filter _).flatMap_right _).map _).mem_iff
  · unfold scopedReferenceNames readScopedReferenceNames
    rw [supportedNames_eq]
    congr 1
    refine
      (scopedReferenceNames_computes tables.bindings
        declarationUri admittedUriRoots
        [referenceExportName, exportedName].reverse).agree
        hNames ?_ ?_
    · exact fun edge => mem_admittedEdges unicode
    · intro seed
      simp
  · rintro rfl
    unfold recursiveReferenceNames readReferenceNames
      recursiveNames
    rw [supportedNames_take, supportedNames_eq]
    congr 1
    refine
      (recursiveReferenceNames_computes tables.bindings
        [referenceExportName, exportedName].dedup).agree
        hNames ?_ ?_
    · intro edge
      rw [← admittedEdges_nil tables.bindings declarationUri]
      exact mem_admittedEdges unicode
    · intro seed
      rw [List.mem_dedup]
      simp
      tauto

----------
-- Aliases of Aliases
----------

/-
  A search that starts from aliases finds no other names,
  and the same names if it comes back to both first ones.
-/
theorem referenceNames_closed
    {store : MemoryStore}
    {exportedName referenceExportName declarationUri : String}
    {roots : List String}
    {names : OrderedSet String}
    (hNames :
      store.referenceNames exportedName referenceExportName
        declarationUri roots = some names)
    {first second : String}
    (hFirst : first ∈ names)
    (hSecond : second ∈ names) :
    ∃ found,
      store.referenceNames first second declarationUri roots =
          some found ∧
        (∀ name ∈ found, name ∈ names) ∧
        (exportedName ∈ found → referenceExportName ∈ found →
          found = names) := by
  have hAll :=
    referenceNames_computes store exportedName
      referenceExportName declarationUri roots
  have hSome :=
    referenceNames_computes store first second declarationUri
      roots
  have hMem := hAll.some_iff names hNames
  have hInside :
      ∀ name,
        Component
            ((store.admittedBindings declarationUri roots).map
              MemoryStore.bindingEdge)
            [first, second] name →
          name ∈ names := by
    intro name hName
    refine hName.mem_of_closed ?_ ?_
    · simp [hFirst, hSecond]
    · intro left right hLeft hLink
      exact (hMem right).mpr (((hMem left).mp hLeft).link hLink)
  cases hFound :
      store.referenceNames first second declarationUri roots with
  | none =>
    rcases hSome.none_iff.mp hFound with
      ⟨items, hNodup, hLarge, hItems⟩
    have hExceeds :=
      hAll.none_iff.mpr
        ⟨items, hNodup, hLarge, fun item hItem =>
          (hMem item).mp (hInside item (hItems item hItem))⟩
    cases hNames.symm.trans hExceeds
  | some found =>
    have hFoundMem := hSome.some_iff found hFound
    refine
      ⟨found, rfl, fun name hName =>
        hInside name ((hFoundMem name).mp hName), ?_⟩
    intro hExported hReference
    apply OrderedSet.ext_of_mem
    intro name
    constructor
    · exact fun hName => hInside name ((hFoundMem name).mp hName)
    · intro hName
      refine ((hMem name).mp hName).mem_of_closed ?_ ?_
      · simp [hExported, hReference]
      · intro left right hLeft hLink
        exact
          (hFoundMem right).mpr
            (((hFoundMem left).mp hLeft).link hLink)

/- A document of one binding that gives a name another. -/
def renamingDocument
    (kind : ReferenceBindingKind)
    (uri source importedName localName : String) :
    DocumentSymbols where
  uri := uri
  symbols := []
  exports := []
  occurrences := []
  aliases := []
  bindings :=
    [⟨importedName, localName, source, kind, uri, .unresolved,
      none, none⟩]
  classHeritage := none
  classBindingProvenance := none

/- A class is re-exported and imported, each time renamed. -/
def renamedCard : MemoryStore where
  documents :=
    ⟨[renamingDocument .reExport "file:///index.ets" "./card"
        "Card" "Tile",
      renamingDocument .import_ "file:///page.ets" "./index"
        "Tile" "Box",
      renamingDocument .import_ "file:///other.ets" "./menu"
        "Menu" "Bar"], by decide⟩

theorem referenceNames_closed_sample :
    ∃ found,
      renamedCard.referenceNames "Tile" "Box"
          "file:///card.ets" [] = some found ∧
        (∀ name ∈ found,
          name ∈ OrderedSet.ofList ["Box", "Card", "Tile"]) ∧
        ("Card" ∈ found → "Tile" ∈ found →
          found = OrderedSet.ofList ["Box", "Card", "Tile"]) :=
  @referenceNames_closed renamedCard "Card" "Tile"
    "file:///card.ets" [] _ (by decide +kernel) "Tile" "Box"
    (by decide +kernel) (by decide +kernel)

end Store

end ArktsServer
