import ArktsServer.Core.BindingChain.PossibleLoop

/-
  The second loop of the identity proof.  One visit records
  a binding in the colour that it takes; a binding that is
  reached stays as it is recorded, so the loop ends, in the
  state that the bindings leave when they take turns.

  Main declarations:
    * `Visit`, `classifyBinding_visit`
    * `ClassifyInvariant`, `classify_growing`
    * `AtTurn`, `atTurn`
    * `mem_provenOccurrences`, `mem_provenBindingUris`
    * `takesAt_of_reached`
-/

----------
-- Recorded Bindings
----------

namespace ArktsServer

namespace BindingChain

variable {input : ChainInput}

namespace Classification

def exports (state : Classification) : Colour → NameMap
| .proven => state.provenExports
| .disjoint => state.disjointExports

def occurrences (state : Classification) : Colour → NameMap
| .proven => state.provenOccurrences
| .disjoint => state.disjointOccurrences

/- Reach a binding in a colour. -/
def record
    (state : Classification)
    (binding : ReferenceBinding)
    (index : Nat) : Colour → Classification
| .proven => state.recordProven binding index
| .disjoint => state.recordDisjoint binding index

end Classification

variable {state next : Classification}
variable {binding : ReferenceBinding}
variable {index : Nat}
variable {colour other : Colour}
variable {entry : String × String}

theorem mem_exports_record :
    entry ∈ (state.record binding index colour).exports other ↔
      entry ∈ state.exports other ∨
        other = colour ∧
          binding.kind = .reExport ∧
          entry = (binding.uri, binding.localName) := by
  cases colour <;> cases other <;>
    simp [Classification.record, Classification.exports,
      Classification.recordProven,
      Classification.recordDisjoint, mem_addReExport,
      or_comm]

theorem mem_occurrences_record :
    entry
        ∈ (state.record binding index colour).occurrences
          other ↔
      entry ∈ state.occurrences other ∨
        other = colour ∧ Introduces binding entry := by
  cases colour <;> cases other <;>
    simp [Classification.record, Classification.occurrences,
      Classification.recordProven,
      Classification.recordDisjoint, recordOccurrences,
      Introduces, or_comm, or_assoc]

theorem mem_documents_record
    {uri : String} :
    uri
        ∈ (state.record binding index
          colour).provenBindingUris ↔
      uri ∈ state.provenBindingUris ∨
        .proven = colour ∧ binding.uri = uri := by
  cases colour <;>
    simp [Classification.record, Classification.recordProven,
      Classification.recordDisjoint, OrderedSet.mem_insert,
      or_comm, eq_comm]

/- The binding has been reached in a colour. -/
structure Recorded
    (colour : Colour)
    (binding : ReferenceBinding)
    (state : Classification) : Prop where
  names :
    ∀ entry,
      Introduces binding entry →
        entry ∈ state.occurrences colour
  exported : ExportRecorded binding (state.exports colour)
  document :
    colour = .proven → binding.uri ∈ state.provenBindingUris

/- The binding has been reached as an external one. -/
def QualifierRecorded
    (binding : ReferenceBinding)
    (state : Classification) : Prop :=
  isExternal binding = true →
    (binding.uri, binding.localName) ∈
      state.externalQualifiers

/- The second state has at least the members of the first. -/
structure Extends (state next : Classification) : Prop where
  occurrences :
    ∀ colour,
      state.occurrences colour ⊆ next.occurrences colour
  exports :
    ∀ colour, state.exports colour ⊆ next.exports colour
  externalQualifiers :
    state.externalQualifiers ⊆ next.externalQualifiers
  provenBindingUris :
    ∀ uri,
      uri ∈ state.provenBindingUris →
        uri ∈ next.provenBindingUris

theorem extends_record
    (state : Classification)
    (binding : ReferenceBinding)
    (index : Nat)
    (colour : Colour) :
    Extends state (state.record binding index colour) where
  occurrences _ _ hMem := mem_occurrences_record.mpr (Or.inl hMem)
  exports _ _ hMem := mem_exports_record.mpr (Or.inl hMem)
  externalQualifiers := by
    cases colour <;> exact Finset.Subset.refl _
  provenBindingUris _ hMem :=
    mem_documents_record.mpr (Or.inl hMem)

theorem extends_recordExternal
    (state : Classification)
    (binding : ReferenceBinding)
    (index : Nat) :
    Extends state (state.recordExternal binding index) :=
  { extends_record state binding index .disjoint with
    externalQualifiers := Finset.subset_insert _ _ }

theorem recorded_record
    (state : Classification)
    (binding : ReferenceBinding)
    (index : Nat)
    (colour : Colour) :
    Recorded colour binding
      (state.record binding index colour) where
  names _ hNew := mem_occurrences_record.mpr (Or.inr ⟨rfl, hNew⟩)
  exported hKind :=
    mem_exports_record.mpr (Or.inr ⟨rfl, hKind, rfl⟩)
  document hProven :=
    mem_documents_record.mpr (Or.inr ⟨hProven.symm, rfl⟩)

theorem Recorded.mono
    (hExtends : Extends state next)
    (hRecorded : Recorded colour binding state) :
    Recorded colour binding next where
  names entry hNew :=
    hExtends.occurrences colour (hRecorded.names entry hNew)
  exported hKind :=
    hExtends.exports colour (hRecorded.exported hKind)
  document hProven :=
    hExtends.provenBindingUris _ (hRecorded.document hProven)

theorem recordOccurrences_of_recorded
    {names : NameMap}
    (hNames :
      ∀ entry, Introduces binding entry → entry ∈ names) :
    recordOccurrences binding names = names := by
  unfold recordOccurrences
  rw [Finset.insert_eq_of_mem (hNames _ (Or.inr rfl)),
    Finset.insert_eq_of_mem (hNames _ (Or.inl rfl))]

/- Recording a recorded binding again changes nothing. -/
theorem record_of_recorded
    (hRecorded : Recorded colour binding state)
    (hIndex : index ∈ state.reachedBindings) :
    state.record binding index colour = state := by
  have hNames := recordOccurrences_of_recorded hRecorded.names
  have hExports := addReExport_of_recorded hRecorded.exported
  have hIndices := Finset.insert_eq_of_mem hIndex
  cases colour with
  | proven =>
    unfold Classification.record Classification.recordProven
    rw [hIndices,
      OrderedSet.insert_of_mem (hRecorded.document rfl)]
    exact
      congrArg₂
        (fun names exports =>
          { state with
            provenOccurrences := names
            provenExports := exports })
        hNames hExports
  | disjoint =>
    unfold Classification.record Classification.recordDisjoint
    rw [hIndices]
    exact
      congrArg₂
        (fun names exports =>
          { state with
            disjointOccurrences := names
            disjointExports := exports })
        hNames hExports

----------
-- One Visit
----------

/- The colours that exports have in a state. -/
def Classification.Coloured
    (state : Classification)
    (colour : Colour)
    (entry : String × String) : Prop :=
  entry ∈ state.exports colour

/- What one visit of the second loop can do. -/
inductive Visit
    (input : ChainInput)
    (state : Classification)
    (binding : ReferenceBinding)
    (index : Nat) : Classification → Prop
| external :
    StartsDisjoint input binding →
      isExternal binding = true →
      Visit input state binding index
        (state.recordExternal binding index)
| takes {colour : Colour} :
    Takes input state.Coloured binding colour →
      isExternal binding = false →
      Visit input state binding index
        (state.record binding index colour)
| passed :
    (∀ colour,
      ¬ Takes input state.Coloured binding colour) →
      Visit input state binding index state

/- A binding without a source keeps its colour, or none. -/
theorem not_takes
    {coloured : Colour → String × String → Prop}
    (hStart : ¬ StartsDisjoint input binding)
    (hSource :
      ∀ entry,
        Reads binding entry →
          (coloured .proven entry ↔ coloured .disjoint entry))
    (colour : Colour) :
    ¬ Takes input coloured binding colour := by
  rintro (⟨_, hStarts⟩ | ⟨entry, hReads, hOwn, hOther⟩)
  · exact hStart hStarts
  · have hBoth := hSource entry hReads
    cases colour with
    | proven => exact hOther (hBoth.mp hOwn)
    | disjoint => exact hOther (hBoth.mpr hOwn)

/- A source with one colour hands it on, any other nothing. -/
theorem classified_by_source
    (state : Classification)
    {entry : String × String}
    (hReads : Reads binding entry)
    (hInternal : isExternal binding = false)
    (hNotStart : ¬ StartsDisjoint input binding) :
    Visit input state binding index
      (if decide (entry ∈ state.provenExports)
          = decide (entry ∈ state.disjointExports) then
        state
      else if decide (entry ∈ state.provenExports) then
        state.recordProven binding index
      else
        state.recordDisjoint binding index) := by
  have hPassed :
      (entry ∈ state.provenExports ↔
        entry ∈ state.disjointExports) →
        Visit input state binding index state := by
    intro hBoth
    refine Visit.passed (not_takes hNotStart ?_)
    intro other hOther
    rw [← hReads.eq hOther]
    exact hBoth
  by_cases hProven : entry ∈ state.provenExports <;>
    by_cases hOther : entry ∈ state.disjointExports
  · simp only [hProven, hOther, if_true]
    exact hPassed (iff_of_true hProven hOther)
  · simp only [hProven, hOther, decide_true, decide_false,
      Bool.true_eq_false, if_false, if_true]
    exact
      @Visit.takes _ _ _ _ .proven
        (Or.inr ⟨_, hReads, hProven, hOther⟩) hInternal
  · simp only [hProven, hOther, decide_true, decide_false,
      Bool.false_eq_true, if_false]
    exact
      @Visit.takes _ _ _ _ .disjoint
        (Or.inr ⟨_, hReads, hOther, hProven⟩) hInternal
  · simp only [hProven, hOther, if_true]
    exact hPassed (iff_of_false hProven hOther)

theorem classifyBinding_visit
    (state : Classification)
    (hGet : input.bindings[index]? = some binding) :
    Visit input state binding index
      (classifyBinding input
        (possibleLoop input).possibleBindings state
        (binding, index)) := by
  unfold classifyBinding
  simp only
  split
  next hExternal =>
    exact Visit.external (Or.inl hExternal) hExternal
  next hInternal =>
    have hNotExternal : isExternal binding = false := by
      simpa using hInternal
    have hDisjoint :
        StartsDisjoint input binding →
          Visit input state binding index
            (state.recordDisjoint binding index) :=
      fun hStart =>
        @Visit.takes _ _ _ _ .disjoint (Or.inl ⟨rfl, hStart⟩)
          hNotExternal
    split
    next hMissing =>
      exact hDisjoint (Or.inr (Or.inl hMissing))
    next hPresent =>
      split
      next hAmbiguous =>
        rw [mem_possibleLoop_iff hGet] at hAmbiguous
        exact hDisjoint (Or.inr (Or.inr (Or.inl hAmbiguous)))
      next hLocated =>
        rw [mem_possibleLoop_iff hGet] at hLocated
        -- No unconditional reason is left but an unknown
        -- source document.
        have hStarts :
            StartsDisjoint input binding →
              ∃ entry,
                Reads binding entry ∧
                  ¬ input.IsKnown entry.1 := by
          rintro (hExternal | hMissing | hAmbiguous | hUnknown)
          · exact absurd hExternal hInternal
          · exact absurd hMissing hPresent
          · exact absurd hAmbiguous hLocated
          · exact hUnknown
        have hUnread :
            (∀ entry, ¬ Reads binding entry) →
              Visit input state binding index state := by
          intro hNoRead
          refine Visit.passed (not_takes ?_ ?_)
          · intro hStart
            rcases hStarts hStart with ⟨entry, hReads, _⟩
            exact hNoRead entry hReads
          · intro entry hReads
            exact absurd hReads (hNoRead entry)
        split
        next hNone =>
          refine hUnread ?_
          intro entry hReads
          have hUri := hReads.2.1
          rw [hNone] at hUri
          cases hUri
        next sourceUri hSome =>
          by_cases hUnique : binding.sourceResolution = .unique
          · have hReads :
                Reads binding (sourceUri, binding.importedName) :=
              ⟨hUnique, hSome, rfl⟩
            simp only [hUnique, ne_eq, not_true_eq_false,
              if_false]
            by_cases hKnown : input.IsKnown sourceUri
            · simp only [hKnown, not_true_eq_false, if_false]
              have hNotStart :=
                not_startsDisjoint_of_reads hReads hKnown
              exact
                classified_by_source state hReads hNotExternal
                  hNotStart
            · simp only [hKnown, not_false_eq_true, if_true]
              exact
                hDisjoint
                  (Or.inr (Or.inr (Or.inr ⟨_, hReads, hKnown⟩)))
          · simp only [hUnique, ne_eq, not_false_eq_true,
              if_true]
            exact hUnread fun entry hReads => hUnique hReads.1

----------
-- The Loop Invariant
----------

/- Why a reached binding was reached. -/
inductive Reached
    (input : ChainInput)
    (state : Classification)
    (binding : ReferenceBinding) : Prop
| starts :
    StartsDisjoint input binding →
      Recorded .disjoint binding state →
      QualifierRecorded binding state →
      Reached input state binding
| reads {entry : String × String} {colour : Colour} :
    Reads binding entry →
      input.IsKnown entry.1 →
      entry ∈ state.exports colour →
      Recorded colour binding state →
      Reached input state binding

theorem Reached.mono
    (hExtends : Extends state next)
    (hReached : Reached input state binding) :
    Reached input next binding := by
  cases hReached with
  | starts hStart hRecorded hQualifier =>
    exact
      Reached.starts hStart (hRecorded.mono hExtends)
        (fun hExternal =>
          hExtends.externalQualifiers (hQualifier hExternal))
  | reads hReads hKnown hMem hRecorded =>
    exact
      Reached.reads hReads hKnown (hExtends.exports _ hMem)
        (hRecorded.mono hExtends)

/- What the second loop keeps. -/
structure ClassifyInvariant
    (input : ChainInput)
    (state : Classification) : Prop where
  known :
    ∀ colour,
      ∀ entry ∈ state.exports colour, input.IsKnown entry.1
  reached :
    ∀ index ∈ state.reachedBindings,
      ∃ binding,
        input.bindings[index]? = some binding ∧
          Reached input state binding

theorem classifyInitial_invariant (input : ChainInput) :
    ClassifyInvariant input (classifyInitial input) where
  known := by
    intro colour entry hMem
    cases colour with
    | proven =>
      rw [Finset.mem_singleton.mp hMem]
      left
      simp [ChainInput.knownUris]
    | disjoint => exact Or.inr ⟨entry, hMem, rfl⟩
  reached _ hMem := absurd hMem (Finset.notMem_empty _)

namespace ClassifyInvariant

/- A visit records one binding and keeps the others. -/
theorem insert
    (hInv : ClassifyInvariant input state)
    (hGet : input.bindings[index]? = some binding)
    (hExports :
      ∀ other,
        next.exports other =
          (state.record binding index colour).exports other)
    (hExtends : Extends state next)
    (hIndices :
      next.reachedBindings =
        Insert.insert index state.reachedBindings)
    (hReached : Reached input next binding) :
    ClassifyInvariant input next where
  known := by
    intro other entry hMem
    rw [hExports] at hMem
    rcases mem_exports_record.mp hMem with
      hOld | ⟨_, _, rfl⟩
    · exact hInv.known other entry hOld
    · exact
        isKnown_of_mem_bindings (List.mem_of_getElem? hGet)
  reached := by
    intro other hMem
    rw [hIndices] at hMem
    rcases Finset.mem_insert.mp hMem with rfl | hOld
    · exact ⟨binding, hGet, hReached⟩
    · rcases hInv.reached other hOld with
        ⟨old, hOldGet, hOldReached⟩
      exact ⟨old, hOldGet, hOldReached.mono hExtends⟩

/- Every visit keeps the invariant. -/
theorem visit
    (hInv : ClassifyInvariant input state)
    (hGet : input.bindings[index]? = some binding)
    (hVisit : Visit input state binding index next) :
    ClassifyInvariant input next := by
  cases hVisit with
  | external hStart hExternal =>
    have hRecorded :=
      recorded_record state binding index .disjoint
    refine
      @insert _ _ _ _ _ .disjoint hInv hGet ?_
        (extends_recordExternal _ _ _) rfl
        (Reached.starts hStart
          ⟨hRecorded.names, hRecorded.exported,
            hRecorded.document⟩
          fun _ => Finset.mem_insert_self _ _)
    intro other
    cases other <;> rfl
  | @takes colour hTakes hInternal =>
    refine
      hInv.insert hGet (fun _ => rfl)
        (extends_record _ _ _ _) ?_ ?_
    · cases colour <;> rfl
    · rcases hTakes with
        ⟨rfl, hStart⟩ | ⟨entry, hReads, hOwn, _⟩
      · refine
          Reached.starts hStart (recorded_record _ _ _ _) ?_
        intro hExternal
        rw [hInternal] at hExternal
        cases hExternal
      · exact
          Reached.reads hReads (hInv.known _ _ hOwn)
            (mem_exports_record.mpr (Or.inl hOwn))
            (recorded_record _ _ _ _)
  | passed _ => exact hInv

theorem subset_positions
    (hInv : ClassifyInvariant input state) :
    state.reachedBindings ⊆ positions input := by
  intro index hMem
  rcases hInv.reached index hMem with ⟨_, hGet, _⟩
  exact mem_positions_of_getElem? hGet

/- A visit that reaches no new binding changes nothing. -/
theorem eq_of_visit
    (hInv : ClassifyInvariant input state)
    (hGet : input.bindings[index]? = some binding)
    (hVisit : Visit input state binding index next)
    (hSize :
      next.reachedBindings.card =
        state.reachedBindings.card) :
    next = state := by
  have hReached :
      index ∈ state.reachedBindings →
        Reached input state binding := by
    intro hMem
    rcases hInv.reached index hMem with
      ⟨other, hOther, hReached⟩
    rw [hGet] at hOther
    cases hOther
    exact hReached
  have hStarts :
      StartsDisjoint input binding →
        index ∈ state.reachedBindings →
          Recorded .disjoint binding state ∧
            QualifierRecorded binding state := by
    intro hStart hMem
    cases hReached hMem with
    | starts _ hRecorded hQualifier =>
      exact ⟨hRecorded, hQualifier⟩
    | reads hReads hKnown _ _ =>
      exact
        absurd hStart (not_startsDisjoint_of_reads hReads hKnown)
  cases hVisit with
  | external hStart hExternal =>
    have hMem := mem_of_card_insert_eq hSize
    rcases hStarts hStart hMem with ⟨hRecorded, hQualifier⟩
    have hSame : state.recordDisjoint binding index = state :=
      record_of_recorded hRecorded hMem
    unfold Classification.recordExternal
    rw [hSame, Finset.insert_eq_of_mem (hQualifier hExternal)]
  | @takes colour hTakes _ =>
    have hMem : index ∈ state.reachedBindings := by
      cases colour <;> exact mem_of_card_insert_eq hSize
    refine record_of_recorded ?_ hMem
    rcases hTakes with
      ⟨rfl, hStart⟩ | ⟨entry, hReads, hOwn, hOther⟩
    · exact (hStarts hStart hMem).1
    · cases hReached hMem with
      | starts hStart _ _ =>
        exact
          absurd hStart
            (not_startsDisjoint_of_reads hReads
              (hInv.known _ _ hOwn))
      | @reads source known hOld _ hIn hRecorded =>
        rw [hOld.eq hReads] at hIn
        cases colour <;> cases known <;>
          first
          | exact hRecorded
          | exact absurd hIn hOther
  | passed _ => rfl

end ClassifyInvariant

theorem Visit.reachedBindings_subset
    (hVisit : Visit input state binding index next) :
    state.reachedBindings ⊆ next.reachedBindings := by
  cases hVisit with
  | external _ _ => exact Finset.subset_insert _ _
  | @takes colour _ _ =>
    cases colour <;> exact Finset.subset_insert _ _
  | passed _ => exact Finset.Subset.refl _

theorem classify_growing (input : ChainInput) :
    Saturation.Growing
      (classifyBinding input
        (possibleLoop input).possibleBindings)
      (·.reachedBindings.card) input.bindings.zipIdx
      (ClassifyInvariant input) input.bindings.length where
  keeps state _ hEntry hInv :=
    hInv.visit (List.mem_zipIdx_iff_getElem?.mp hEntry)
      (classifyBinding_visit state
        (List.mem_zipIdx_iff_getElem?.mp hEntry))
  size_le state _ hEntry _ :=
    Finset.card_le_card
      (classifyBinding_visit state
        (List.mem_zipIdx_iff_getElem?.mp
          hEntry)).reachedBindings_subset
  eq_of_size_eq state _ hEntry hInv hSize :=
    hInv.eq_of_visit (List.mem_zipIdx_iff_getElem?.mp hEntry)
      (classifyBinding_visit state
        (List.mem_zipIdx_iff_getElem?.mp hEntry))
      hSize
  bounded _ hInv := card_le_of_positions hInv.subset_positions

/- The final state of the second loop. -/
def finalState (input : ChainInput) : Classification :=
  classifyLoop input (possibleLoop input).possibleBindings

theorem finalState_fixed (input : ChainInput) :
    ClassifyInvariant input (finalState input) ∧
      ∀ entry ∈ input.bindings.zipIdx,
        classifyBinding input
            (possibleLoop input).possibleBindings
            (finalState input) entry =
          finalState input :=
  (classify_growing input).saturate_fixed
    (classifyInitial_invariant input)
    (Nat.lt_add_right _ (Nat.lt_succ_self _))

----------
-- Turns of the Bindings
----------

/- The state before a turn. -/
def stateAt (input : ChainInput) (turn : Nat) :
    Classification :=
  Saturation.takeTurns
    (classifyBinding input
      (possibleLoop input).possibleBindings)
    input.bindings.zipIdx (classifyInitial input) turn

variable {turn : Nat}

theorem stateAt_skip
    (hTurn : turnBinding? input turn = none) :
    stateAt input (turn + 1) = stateAt input turn := by
  have hItem :
      Saturation.turnItem? input.bindings.zipIdx turn = none := by
    unfold turnBinding? at hTurn
    unfold Saturation.turnItem? at hTurn ⊢
    rw [List.length_zipIdx, List.getElem?_zipIdx, hTurn]
    rfl
  conv_lhs => unfold stateAt Saturation.takeTurns
  rw [hItem]
  rfl

/- A turn is a visit of the binding whose turn it is. -/
theorem stateAt_succ
    (hTurn : turnBinding? input turn = some binding) :
    ∃ index : Nat,
      input.bindings[index]? = some binding ∧
        Visit input (stateAt input turn) binding index
          (stateAt input (turn + 1)) := by
  have hGet :
      input.bindings[turn % input.bindings.length]?
        = some binding := hTurn
  have hItem :
      Saturation.turnItem? input.bindings.zipIdx turn =
        some (binding, turn % input.bindings.length) := by
    unfold Saturation.turnItem?
    rw [List.length_zipIdx, List.getElem?_zipIdx, hGet]
    simp
  refine ⟨_, hGet, ?_⟩
  have hVisit := classifyBinding_visit (stateAt input turn) hGet
  have hNext :
      stateAt input (turn + 1) =
        classifyBinding input
          (possibleLoop input).possibleBindings
          (stateAt input turn)
          (binding, turn % input.bindings.length) := by
    conv_lhs => unfold stateAt Saturation.takeTurns
    rw [hItem]
    rfl
  rw [hNext]
  exact hVisit

/- From some turn on nothing changes any more. -/
theorem finalState_turn (input : ChainInput) :
    ∃ last,
      ∀ turn,
        last ≤ turn → stateAt input turn = finalState input := by
  have hTurn :=
    @Saturation.saturate_eq_takeTurns _ _
      (classifyBinding input
        (possibleLoop input).possibleBindings)
      input.bindings.zipIdx (classifyInitial input)
      (·.reachedBindings.card) (input.bindings.length + 1) 0
  rw [Nat.zero_mul] at hTurn
  rcases hTurn with ⟨last, hLast⟩
  refine ⟨last, ?_⟩
  intro turn hLater
  have hFixed := (finalState_fixed input).2
  have hSame : finalState input = stateAt input last := hLast
  rw [hSame] at hFixed ⊢
  exact Saturation.takeTurns_fixed hFixed hLater

theorem stateAt_invariant (input : ChainInput) (turn : Nat) :
    ClassifyInvariant input (stateAt input turn) := by
  induction turn with
  | zero => exact classifyInitial_invariant input
  | succ turn ih =>
    cases hTurn : turnBinding? input turn with
    | none =>
      rw [stateAt_skip hTurn]
      exact ih
    | some binding =>
      rcases stateAt_succ hTurn with ⟨_, hGet, hVisit⟩
      exact ih.visit hGet hVisit

/- A binding takes one colour at most. -/
theorem Takes.unique
    (hInv : ClassifyInvariant input state)
    (hLeft : Takes input state.Coloured binding colour)
    (hRight : Takes input state.Coloured binding other) :
    colour = other := by
  rcases hLeft with
    ⟨rfl, hStart⟩ | ⟨entry, hReads, hOwn, hNot⟩ <;>
    rcases hRight with
      ⟨rfl, hOtherStart⟩ | ⟨source, hOther, hHas, hMissing⟩
  · rfl
  · exact
      absurd hStart
        (not_startsDisjoint_of_reads hOther (hInv.known _ _ hHas))
  · exact
      absurd hOtherStart
        (not_startsDisjoint_of_reads hReads (hInv.known _ _ hOwn))
  · rw [hOther.eq hReads] at hHas hMissing
    cases colour <;> cases other <;>
      first
      | rfl
      | exact absurd hHas hNot

/- What a visit adds to a state. -/
theorem Visit.adds
    (hInv : ClassifyInvariant input state)
    (hVisit : Visit input state binding index next) :
    (∀ colour entry,
      entry ∈ next.exports colour ↔
        entry ∈ state.exports colour ∨
          Takes input state.Coloured binding colour ∧
            binding.kind = .reExport ∧
            entry = (binding.uri, binding.localName)) ∧
      (∀ entry,
        entry ∈ next.provenOccurrences ↔
          entry ∈ state.provenOccurrences ∨
            Takes input state.Coloured binding .proven ∧
              Introduces binding entry) ∧
      (∀ uri,
        uri ∈ next.provenBindingUris ↔
          uri ∈ state.provenBindingUris ∨
            Takes input state.Coloured binding .proven ∧
              binding.uri = uri) ∧
      ∀ other ∈ next.reachedBindings,
        other ∈ state.reachedBindings ∨
          other = index ∧
            ∃ colour,
              Takes input state.Coloured binding colour := by
  have hRecord :
      ∀ {colour : Colour},
        Takes input state.Coloured binding colour →
          ∀ other,
            other = colour ↔
              Takes input state.Coloured binding other := by
    intro colour hTakes other
    constructor
    · rintro rfl
      exact hTakes
    · exact fun hOther => hOther.unique hInv hTakes
  cases hVisit with
  | external hStart _ =>
    have hTakes :
        Takes input state.Coloured binding .disjoint :=
      Or.inl ⟨rfl, hStart⟩
    refine ⟨?_, ?_, ?_, ?_⟩
    · intro colour entry
      rw [← hRecord hTakes]
      have hSame :
          (state.recordExternal binding index).exports colour =
            (state.record binding index .disjoint).exports
              colour := by
        cases colour <;> rfl
      rw [hSame]
      exact mem_exports_record
    · intro entry
      rw [← hRecord hTakes]
      exact @mem_occurrences_record _ _ index .disjoint .proven _
    · intro uri
      rw [← hRecord hTakes]
      exact @mem_documents_record _ _ index .disjoint _
    · intro other hMem
      rcases Finset.mem_insert.mp hMem with rfl | hOld
      · exact Or.inr ⟨rfl, _, hTakes⟩
      · exact Or.inl hOld
  | @takes colour hTakes _ =>
    refine ⟨?_, ?_, ?_, ?_⟩
    · intro other entry
      rw [← hRecord hTakes]
      exact mem_exports_record
    · intro entry
      rw [← hRecord hTakes]
      exact @mem_occurrences_record _ _ index colour .proven _
    · intro uri
      rw [← hRecord hTakes]
      exact mem_documents_record
    · intro other hMem
      have hInsert :
          other ∈ insert index state.reachedBindings := by
        cases colour <;> exact hMem
      rcases Finset.mem_insert.mp hInsert with rfl | hOld
      · exact Or.inr ⟨rfl, _, hTakes⟩
      · exact Or.inl hOld
  | passed hNone =>
    simp only [hNone, false_and, or_false, implies_true, true_and]
    exact fun _ hMem => Or.inl hMem

/- What the state before a turn tells about earlier turns. -/
structure AtTurn
    (input : ChainInput)
    (turn : Nat)
    (state : Classification) : Prop where
  exports :
    ∀ colour entry,
      entry ∈ state.exports colour ↔
        ColouredAt input turn colour entry
  names :
    ∀ entry,
      entry ∈ state.provenOccurrences ↔
        entry = (input.declarationUri, input.declarationName) ∨
          entry =
            (input.declarationUri,
              input.referenceExportName) ∨
          ∃ earlier < turn,
            ∃ binding,
              TakesAt input earlier binding .proven ∧
                Introduces binding entry
  documents :
    ∀ uri,
      uri ∈ state.provenBindingUris ↔
        ∃ earlier < turn,
          ∃ binding,
            TakesAt input earlier binding .proven ∧
              binding.uri = uri
  reached :
    ∀ index ∈ state.reachedBindings,
      ∃ turn binding colour,
        input.bindings[index]? = some binding ∧
          TakesAt input turn binding colour

/- One more turn adds what the binding of that turn adds. -/
theorem exists_earlier_succ
    {holds : ReferenceBinding → Prop} :
    (∃ earlier < turn + 1,
        ∃ binding,
          TakesAt input earlier binding .proven ∧
            holds binding) ↔
      (∃ earlier < turn,
        ∃ binding,
          TakesAt input earlier binding .proven ∧
            holds binding) ∨
        ∃ binding,
          TakesAt input turn binding .proven ∧
            holds binding := by
  constructor
  · rintro ⟨earlier, hLess, hTakes⟩
    rcases Nat.lt_succ_iff_lt_or_eq.mp hLess with hOld | rfl
    · exact Or.inl ⟨earlier, hOld, hTakes⟩
    · exact Or.inr hTakes
  · rintro (⟨earlier, hLess, hTakes⟩ | hTakes)
    · exact ⟨earlier, Nat.lt_succ_of_lt hLess, hTakes⟩
    · exact ⟨turn, Nat.lt_succ_self turn, hTakes⟩

theorem AtTurn.skip
    (hAt : AtTurn input turn state)
    (hTurn : turnBinding? input turn = none) :
    AtTurn input (turn + 1) state := by
  have hNone :
      ∀ holds : ReferenceBinding → Prop,
        ¬ ∃ binding,
          TakesAt input turn binding .proven ∧ holds binding := by
    rintro holds ⟨binding, ⟨hSome, _⟩, _⟩
    rw [hTurn] at hSome
    cases hSome
  constructor
  · intro colour entry
    rw [hAt.exports, colouredAt_succ]
    simp [hTurn]
  · intro entry
    rw [hAt.names, exists_earlier_succ]
    simp only [hNone, or_false]
  · intro uri
    rw [hAt.documents, exists_earlier_succ]
    simp only [hNone, or_false]
  · exact hAt.reached

theorem AtTurn.visit
    (hAt : AtTurn input turn state)
    (hInv : ClassifyInvariant input state)
    (hGet : input.bindings[index]? = some binding)
    (hTurn : turnBinding? input turn = some binding)
    (hVisit : Visit input state binding index next) :
    AtTurn input (turn + 1) next := by
  have hColours : state.Coloured = ColouredAt input turn := by
    funext colour entry
    exact propext (hAt.exports colour entry)
  have hAdds := hVisit.adds hInv
  rw [hColours] at hAdds
  rcases hAdds with ⟨hExports, hNames, hDocuments, hReached⟩
  have hOnly :
      ∀ holds : ReferenceBinding → Prop,
        (∃ binding,
          TakesAt input turn binding .proven ∧ holds binding) ↔
          Takes input (ColouredAt input turn) binding .proven ∧
            holds binding := by
    intro holds
    constructor
    · rintro ⟨other, ⟨hOther, hTakes⟩, hHolds⟩
      rw [hTurn] at hOther
      cases hOther
      exact ⟨hTakes, hHolds⟩
    · rintro ⟨hTakes, hHolds⟩
      exact ⟨binding, ⟨hTurn, hTakes⟩, hHolds⟩
  constructor
  · intro colour entry
    rw [hExports, hAt.exports, colouredAt_succ]
    simp only [hTurn, Option.some.injEq, exists_eq_left']
  · intro entry
    rw [hNames, hAt.names, exists_earlier_succ, hOnly, or_assoc,
      or_assoc]
  · intro uri
    rw [hDocuments, hAt.documents, exists_earlier_succ, hOnly]
  · intro other hMem
    rcases hReached other hMem with
      hOld | ⟨rfl, colour, hTakes⟩
    · exact hAt.reached other hOld
    · exact ⟨turn, binding, colour, hGet, hTurn, hTakes⟩

theorem atTurn (input : ChainInput) (turn : Nat) :
    AtTurn input turn (stateAt input turn) := by
  induction turn with
  | zero =>
    constructor
    · intro colour entry
      cases colour with
      | proven => exact Finset.mem_singleton
      | disjoint => exact Iff.rfl
    · intro entry
      simp [stateAt, Saturation.takeTurns, classifyInitial]
    · intro uri
      simp [stateAt, Saturation.takeTurns, classifyInitial,
        OrderedSet.not_mem_empty]
    · intro index hMem
      exact absurd hMem (Finset.notMem_empty _)
  | succ turn ih =>
    cases hTurn : turnBinding? input turn with
    | none =>
      rw [stateAt_skip hTurn]
      exact ih.skip hTurn
    | some binding =>
      rcases stateAt_succ hTurn with ⟨index, hGet, hVisit⟩
      exact
        ih.visit (stateAt_invariant input turn) hGet hTurn hVisit

----------
-- The Final State
----------

/- The loop ends with what the bindings ever take. -/
theorem mem_provenOccurrences :
    entry ∈ (finalState input).provenOccurrences ↔
      ProvenName input entry := by
  rcases finalState_turn input with ⟨last, hLast⟩
  constructor
  · intro hMem
    rw [← hLast last (Nat.le_refl _),
      (atTurn input last).names] at hMem
    rcases hMem with hName | hExport |
      ⟨turn, _, binding, hTakes, hNew⟩
    · exact Or.inl hName
    · exact Or.inr (Or.inl hExport)
    · exact Or.inr (Or.inr ⟨turn, binding, hTakes, hNew⟩)
  · rintro (hName | hExport | ⟨turn, binding, hTakes, hNew⟩)
    · rw [← hLast last (Nat.le_refl _),
        (atTurn input last).names]
      exact Or.inl hName
    · rw [← hLast last (Nat.le_refl _),
        (atTurn input last).names]
      exact Or.inr (Or.inl hExport)
    · rw [← hLast (max last (turn + 1)) (le_max_left _ _),
        (atTurn input _).names]
      exact
        Or.inr
          (Or.inr
            ⟨turn, le_max_right last (turn + 1), binding,
              hTakes, hNew⟩)

theorem mem_provenBindingUris
    {uri : String} :
    uri ∈ (finalState input).provenBindingUris ↔
      ∃ turn binding,
        TakesAt input turn binding .proven ∧
          binding.uri = uri := by
  rcases finalState_turn input with ⟨last, hLast⟩
  constructor
  · intro hMem
    rw [← hLast last (Nat.le_refl _),
      (atTurn input last).documents] at hMem
    rcases hMem with ⟨turn, _, binding, hTakes, hUri⟩
    exact ⟨turn, binding, hTakes, hUri⟩
  · rintro ⟨turn, binding, hTakes, hUri⟩
    rw [← hLast (max last (turn + 1)) (le_max_left _ _),
      (atTurn input _).documents]
    exact
      ⟨turn, le_max_right last (turn + 1), binding, hTakes, hUri⟩

/- A reached binding takes a colour at some turn. -/
theorem takesAt_of_reached
    (hGet : input.bindings[index]? = some binding)
    (hMem : index ∈ (finalState input).reachedBindings) :
    ∃ turn colour, TakesAt input turn binding colour := by
  rcases finalState_turn input with ⟨last, hLast⟩
  rw [← hLast last (Nat.le_refl _)] at hMem
  rcases (atTurn input last).reached index hMem with
    ⟨turn, other, colour, hOther, hTakes⟩
  rw [hGet] at hOther
  cases hOther
  exact ⟨turn, colour, hTakes⟩

end BindingChain

end ArktsServer
