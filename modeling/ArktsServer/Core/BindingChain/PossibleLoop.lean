import ArktsServer.Core.BindingChain.Semantics

/-
  The first loop of the identity proof marks exactly the
  bindings that may denote the declaration.

  Main declarations:
    * `positions`
    * `ExportRecorded`
    * `PossibleInvariant`
    * `mem_possibleLoop_iff`
-/

----------
-- Positions
----------

namespace ArktsServer

namespace BindingChain

variable {input : ChainInput}

/- The positions of the binding list. -/
def positions (input : ChainInput) : Finset Nat :=
  Finset.range input.bindings.length

variable {binding : ReferenceBinding}
variable {index : Nat}

theorem mem_positions_of_getElem?
    (hGet : input.bindings[index]? = some binding) :
    index ∈ positions input := by
  rcases List.getElem?_eq_some_iff.mp hGet with ⟨hLt, _⟩
  exact Finset.mem_range.mpr hLt

theorem exists_getElem?_of_mem
    (hMem : binding ∈ input.bindings) :
    ∃ index : Nat, input.bindings[index]? = some binding :=
  List.mem_iff_getElem?.mp hMem

variable {indices : Finset Nat}

theorem card_le_of_positions
    (hSub : indices ⊆ positions input) :
    indices.card ≤ input.bindings.length := by
  have hCard := Finset.card_le_card hSub
  rwa [positions, Finset.card_range] at hCard

/- A set of indices grows exactly when an index is new. -/
theorem mem_of_card_insert_eq
    (hCard : (insert index indices).card = indices.card) :
    index ∈ indices := by
  by_contra hNew
  rw [Finset.card_insert_of_notMem hNew] at hCard
  omega

variable {exports : NameMap}

theorem mem_addReExport
    {entry : String × String} :
    entry ∈ addReExport binding exports ↔
      (binding.kind = .reExport ∧
        entry = (binding.uri, binding.localName)) ∨
        entry ∈ exports := by
  unfold addReExport
  by_cases hKind : binding.kind = .reExport
  · simp [hKind]
  · simp [hKind]

/- The export of a binding is recorded in a set. -/
def ExportRecorded
    (binding : ReferenceBinding)
    (exports : NameMap) : Prop :=
  binding.kind = .reExport →
    (binding.uri, binding.localName) ∈ exports

theorem addReExport_of_recorded
    (hRecorded : ExportRecorded binding exports) :
    addReExport binding exports = exports := by
  unfold addReExport
  by_cases hKind : binding.kind = .reExport
  · rw [if_pos hKind]
    exact Finset.insert_eq_of_mem (hRecorded hKind)
  · rw [if_neg hKind]

theorem exportRecorded_addReExport
    (binding : ReferenceBinding)
    (exports : NameMap) :
    ExportRecorded binding (addReExport binding exports) := by
  intro hKind
  exact mem_addReExport.mpr (Or.inl ⟨hKind, rfl⟩)

theorem subset_addReExport
    (binding : ReferenceBinding)
    (exports : NameMap) :
    exports ⊆ addReExport binding exports := by
  intro entry hMem
  exact mem_addReExport.mpr (Or.inr hMem)

----------
-- The First Loop
----------

/- What the first loop keeps. -/
structure PossibleInvariant
    (input : ChainInput)
    (state : PossibleState) : Prop where
  sound :
    ∀ entry ∈ state.possibleExports,
      PossibleExport input entry
  declaration :
    (input.declarationUri, input.referenceExportName) ∈
      state.possibleExports
  marked :
    ∀ index ∈ state.possibleBindings,
      ∃ binding,
        input.bindings[index]? = some binding ∧
          PossibleBinding input binding ∧
          ExportRecorded binding state.possibleExports
  seeded :
    ∀ index binding,
      input.bindings[index]? = some binding →
        seedsPossible input binding = true →
        index ∈ state.possibleBindings

/- The seeds contribute their exports and nothing else. -/
theorem mem_foldl_addReExport
    {seeds : List (ReferenceBinding × Nat)}
    {entry : String × String} :
    entry ∈
        seeds.foldl
          (fun exports seed => addReExport seed.1 exports)
          exports ↔
      (∃ seed ∈ seeds,
        seed.1.kind = .reExport ∧
          entry = (seed.1.uri, seed.1.localName)) ∨
        entry ∈ exports := by
  induction seeds generalizing exports with
  | nil => simp
  | cons head tail ih =>
    rw [List.foldl_cons, ih, mem_addReExport]
    simp only [List.mem_cons, exists_eq_or_imp]
    exact or_left_comm.trans or_assoc.symm

theorem possibleInitial_invariant (input : ChainInput) :
    PossibleInvariant input (possibleInitial input) where
  sound := by
    intro entry hMem
    rcases mem_foldl_addReExport.mp hMem with
      ⟨seed, hSeed, hKind, rfl⟩ | hBase
    · rcases List.mem_filter.mp hSeed with
        ⟨hZip, hSeeds⟩
      exact
        PossibleExport.seed (List.fst_mem_of_mem_zipIdx hZip)
          hSeeds hKind
    · rw [Finset.mem_singleton.mp hBase]
      exact PossibleExport.declaration
  declaration :=
    mem_foldl_addReExport.mpr
      (Or.inr (Finset.mem_singleton_self _))
  marked := by
    intro index hMem
    rcases List.mem_map.mp (List.mem_toFinset.mp hMem) with
      ⟨seed, hSeed, rfl⟩
    rcases List.mem_filter.mp hSeed with ⟨hZip, hSeeds⟩
    refine
      ⟨seed.1, List.mem_zipIdx_iff_getElem?.mp hZip,
        Or.inl hSeeds, ?_⟩
    intro hKind
    exact
      mem_foldl_addReExport.mpr (Or.inl ⟨seed, hSeed, hKind, rfl⟩)
  seeded := by
    intro index binding hGet hSeeds
    refine
      List.mem_toFinset.mpr
        (List.mem_map.mpr ⟨(binding, index), ?_, rfl⟩)
    exact
      List.mem_filter.mpr
        ⟨List.mem_zipIdx_iff_getElem?.mpr hGet, hSeeds⟩

variable {state : PossibleState}

theorem possibleStep_invariant
    {entry : ReferenceBinding × Nat}
    (hEntry : entry ∈ input.bindings.zipIdx)
    (hInv : PossibleInvariant input state) :
    PossibleInvariant input (possibleStep state entry) := by
  unfold possibleStep
  split
  next hSource =>
    have hGet : input.bindings[entry.2]? = some entry.1 :=
      List.mem_zipIdx_iff_getElem?.mp hEntry
    rcases sourceIsPossible_iff.mp hSource with
      ⟨source, hMem, hRead⟩
    have hExport := hInv.sound source hMem
    refine ⟨?_, ?_, ?_, ?_⟩
    · intro other hOther
      rcases mem_addReExport.mp hOther with
        ⟨hKind, rfl⟩ | hOld
      · exact
          PossibleExport.reExport
            (List.mem_of_getElem? hGet) hRead hExport hKind
      · exact hInv.sound other hOld
    · exact subset_addReExport _ _ hInv.declaration
    · intro index hIndex
      rcases Finset.mem_insert.mp hIndex with rfl | hOld
      · exact
          ⟨entry.1, hGet, Or.inr ⟨source, hRead, hExport⟩,
            exportRecorded_addReExport _ _⟩
      · rcases hInv.marked index hOld with
          ⟨binding, hOther, hPossible, hRecorded⟩
        exact
          ⟨binding, hOther, hPossible,
            fun hKind =>
              subset_addReExport _ _ (hRecorded hKind)⟩
    · intro index binding hOther hSeeds
      exact
        Finset.mem_insert_of_mem
          (hInv.seeded index binding hOther hSeeds)
  next => exact hInv

theorem PossibleInvariant.subset_positions
    (hInv : PossibleInvariant input state) :
    state.possibleBindings ⊆ positions input := by
  intro index hMem
  rcases hInv.marked index hMem with ⟨_, hGet, _⟩
  exact mem_positions_of_getElem? hGet

theorem possible_growing (input : ChainInput) :
    Saturation.Growing possibleStep
      (·.possibleBindings.card) input.bindings.zipIdx
      (PossibleInvariant input) input.bindings.length where
  keeps _ _ hEntry hInv := possibleStep_invariant hEntry hInv
  size_le := by
    intro state entry _ _
    unfold possibleStep
    split
    next =>
      exact Finset.card_le_card (Finset.subset_insert _ _)
    next => exact Nat.le_refl _
  eq_of_size_eq := by
    intro state entry hEntry hInv hSize
    unfold possibleStep at hSize ⊢
    split
    next hSource =>
      rw [if_pos hSource] at hSize
      have hMem := mem_of_card_insert_eq hSize
      rcases hInv.marked entry.2 hMem with
        ⟨binding, hGet, _, hRecorded⟩
      rw [List.mem_zipIdx_iff_getElem?.mp hEntry] at hGet
      cases hGet
      rw [addReExport_of_recorded hRecorded,
        Finset.insert_eq_of_mem hMem]
    next => rfl
  bounded _ hInv := card_le_of_positions hInv.subset_positions

/- The first loop ends in a state that no binding changes. -/
theorem possibleLoop_fixed (input : ChainInput) :
    PossibleInvariant input (possibleLoop input) ∧
      ∀ entry ∈ input.bindings.zipIdx,
        possibleStep (possibleLoop input) entry =
          possibleLoop input :=
  (possible_growing input).saturate_fixed
    (possibleInitial_invariant input) (by omega)

variable {entry : String × String}

/- A fixed state marks every binding with a possible source. -/
theorem possibleLoop_marks
    (hGet : input.bindings[index]? = some binding)
    (hMem : entry ∈ (possibleLoop input).possibleExports)
    (hRead : Reads binding entry ∨ MayRead binding entry) :
    index ∈ (possibleLoop input).possibleBindings ∧
      ExportRecorded binding
        (possibleLoop input).possibleExports := by
  have hFixed :=
    (possibleLoop_fixed input).2 (binding, index)
      (List.mem_zipIdx_iff_getElem?.mpr hGet)
  have hSource :
      sourceIsPossible
          (possibleLoop input).possibleExports binding =
        true :=
    sourceIsPossible_iff.mpr ⟨entry, hMem, hRead⟩
  unfold possibleStep at hFixed
  rw [if_pos hSource] at hFixed
  rw [← hFixed]
  exact
    ⟨Finset.mem_insert_self _ _, exportRecorded_addReExport _ _⟩

theorem mem_possibleExports_of_possibleExport
    (hExport : PossibleExport input entry) :
    entry ∈ (possibleLoop input).possibleExports := by
  have hInv := (possibleLoop_fixed input).1
  induction hExport with
  | declaration => exact hInv.declaration
  | seed hMem hSeeds hKind =>
    rcases exists_getElem?_of_mem hMem with ⟨index, hGet⟩
    rcases hInv.marked index
        (hInv.seeded index _ hGet hSeeds) with
      ⟨_, hOther, _, hRecorded⟩
    rw [hGet] at hOther
    cases hOther
    exact hRecorded hKind
  | reExport hMem hRead _ hKind ih =>
    rcases exists_getElem?_of_mem hMem with ⟨index, hGet⟩
    exact (possibleLoop_marks hGet ih hRead).2 hKind

/- The first loop marks exactly the possible bindings. -/
theorem mem_possibleLoop_iff
    (hGet : input.bindings[index]? = some binding) :
    index ∈ (possibleLoop input).possibleBindings ↔
      PossibleBinding input binding := by
  have hInv := (possibleLoop_fixed input).1
  constructor
  · intro hMem
    rcases hInv.marked index hMem with
      ⟨_, hOther, hPossible, _⟩
    rw [hGet] at hOther
    cases hOther
    exact hPossible
  · rintro (hSeeds | ⟨entry, hRead, hExport⟩)
    · exact hInv.seeded index binding hGet hSeeds
    · exact
        (possibleLoop_marks hGet
          (mem_possibleExports_of_possibleExport hExport)
          hRead).1

end BindingChain

end ArktsServer
