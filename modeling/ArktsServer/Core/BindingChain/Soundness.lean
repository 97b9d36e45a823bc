import ArktsServer.Core.BindingChain.Classification

/-
  What a complete identity promises.

  It contains every document that reaches the declaration
  through re-exports exactly when no binding at the end of a
  path takes the disjoint colour for good.  That needs an
  export that is reached from the declaration and from
  something else, and the turn of the binding between the
  two; the colour that arrives first is never revoked.

  Main declarations:
    * `SoundIdentity`, `KeepsColours`
    * `mem_identityUris_iff`
    * `sound_iff_keepsColours`
    * `keepsColours_of_conflictFree`
-/

----------
-- Complete Identities
----------

namespace ArktsServer

namespace BindingChain

variable {input : ChainInput}

/-
  The binding counts for its document: always for a default
  export, for a named one if a name of it occurs there.
-/
def Occurs
    (input : ChainInput)
    (binding : ReferenceBinding) : Prop :=
  input.referenceExportName = "default" ∨
    ∃ occurrence ∈ input.occurrences,
      occurrence.uri = binding.uri ∧
        (occurrence.name = binding.localName ∨
          occurrence.name = binding.importedName)

/-
  A complete identity contains the last document of every
  path.
-/
def SoundIdentity (input : ChainInput) : Prop :=
  (proveReferenceBindingChain input).1 = true →
    ∀ path last,
      BindingPath input path →
        path.getLast? = some last →
        Occurs input last →
        last.uri ∈ (proveReferenceBindingChain input).2.1

theorem proveReferenceBindingChain_default
    (hDefault : input.referenceExportName = "default") :
    proveReferenceBindingChain input =
      defaultExit input (possibleLoop input).possibleBindings
        (finalState input) := by
  unfold proveReferenceBindingChain
  rw [if_pos hDefault]
  rfl

theorem proveReferenceBindingChain_named
    (hNamed : input.referenceExportName ≠ "default") :
    proveReferenceBindingChain input =
      namedExit input (finalState input) := by
  unfold proveReferenceBindingChain
  rw [if_neg hNamed]
  rfl

/- A complete default identity reached what is possible. -/
theorem defaultExit_complete
    {possibleBindings : Finset Nat}
    {state : Classification}
    (hComplete :
      (defaultExit input possibleBindings state).1 = true) :
    possibleBindings ⊆ state.reachedBindings ∧
      (defaultExit input possibleBindings state).2.1 =
        (state.provenBindingUris.insert
          input.declarationUri).toList := by
  unfold defaultExit at hComplete ⊢
  simp only at hComplete ⊢
  split at hComplete
  next => simp at hComplete
  next hExit =>
    rw [if_neg hExit]
    simp only [Bool.or_eq_true, Bool.not_eq_true',
      decide_eq_false_iff_not, not_or, not_not] at hExit
    exact ⟨hExit.1, rfl⟩

/- A complete named identity reached every binding. -/
theorem namedExit_complete
    {state : Classification}
    (hComplete : (namedExit input state).1 = true) :
    state.reachedBindings.card = input.bindings.length ∧
      (namedExit input state).2.1 =
        (OrderedSet.ofList
          ((input.occurrences.filter
            (occurrenceIsProven state)).map
              (·.uri))).toList := by
  unfold namedExit at hComplete ⊢
  simp only at hComplete ⊢
  split at hComplete
  next => simp at hComplete
  next hExit =>
    rw [if_neg hExit]
    refine ⟨?_, rfl⟩
    by_contra hCard
    apply hExit
    simp [hCard]

variable {binding : ReferenceBinding}

/- Every binding of a complete identity is reached. -/
theorem reached_of_complete
    (hComplete : (proveReferenceBindingChain input).1 = true)
    {index : Nat}
    (hGet : input.bindings[index]? = some binding)
    (hPossible : PossibleBinding input binding) :
    index ∈ (finalState input).reachedBindings := by
  by_cases hDefault : input.referenceExportName = "default"
  · rw [proveReferenceBindingChain_default hDefault]
      at hComplete
    exact
      (defaultExit_complete hComplete).1
        ((mem_possibleLoop_iff hGet).mpr hPossible)
  · rw [proveReferenceBindingChain_named hDefault]
      at hComplete
    have hCard := (namedExit_complete hComplete).1
    have hAll :
        (finalState input).reachedBindings = positions input := by
      refine
        Finset.eq_of_subset_of_card_le
          (finalState_fixed input).1.subset_positions ?_
      rw [hCard, positions, Finset.card_range]
    rw [hAll]
    exact mem_positions_of_getElem? hGet

/- A complete identity consists of the proven documents. -/
theorem mem_identityUris_iff
    (hComplete : (proveReferenceBindingChain input).1 = true)
    (uri : String) :
    uri ∈ (proveReferenceBindingChain input).2.1 ↔
      ProvenDocument input uri := by
  unfold ProvenDocument
  by_cases hDefault : input.referenceExportName = "default"
  · rw [proveReferenceBindingChain_default hDefault]
      at hComplete ⊢
    rw [(defaultExit_complete hComplete).2, if_pos hDefault,
      ← mem_provenBindingUris]
    exact OrderedSet.mem_insert
  · rw [proveReferenceBindingChain_named hDefault]
      at hComplete ⊢
    rw [(namedExit_complete hComplete).2, if_neg hDefault]
    refine OrderedSet.mem_ofList.trans ?_
    simp only [List.mem_map, List.mem_filter,
      occurrenceIsProven, decide_eq_true_eq,
      mem_provenOccurrences]
    constructor
    · rintro ⟨occurrence, ⟨hMem, hName⟩, hUri⟩
      exact ⟨occurrence, hMem, hUri, hName⟩
    · rintro ⟨occurrence, hMem, hUri, hName⟩
      exact ⟨occurrence, ⟨hMem, hName⟩, hUri⟩

/- A binding that takes the proven colour proves its document. -/
theorem provenDocument_of_takes
    {turn : Nat}
    (hTakes : TakesAt input turn binding .proven)
    (hOccurs : Occurs input binding) :
    ProvenDocument input binding.uri := by
  unfold ProvenDocument
  split
  next => exact Or.inr ⟨turn, binding, hTakes, rfl⟩
  next hNamed =>
    rcases hOccurs with hDefault | ⟨occurrence, hMem, hUri, hName⟩
    · exact absurd hDefault hNamed
    · refine
        ⟨occurrence, hMem, hUri,
          Or.inr (Or.inr ⟨turn, binding, hTakes, ?_⟩)⟩
      rw [hUri]
      exact
        hName.imp (congrArg (Prod.mk _)) (congrArg (Prod.mk _))

/-
  No binding at the end of a path takes the disjoint colour,
  unless its document is proven in another way.
-/
def KeepsColours (input : ChainInput) : Prop :=
  ∀ path last,
    BindingPath input path →
      path.getLast? = some last →
      Occurs input last →
      ∀ turn,
        TakesAt input turn last .disjoint →
          ProvenDocument input last.uri

/-
  Without such a binding the identity is sound, and a
  complete identity is sound only without such a binding.
-/
theorem sound_iff_keepsColours (input : ChainInput) :
    (KeepsColours input → SoundIdentity input) ∧
      ((proveReferenceBindingChain input).1 = true →
        SoundIdentity input → KeepsColours input) := by
  constructor
  · intro hKeeps hComplete path last hPath hLast hOccurs
    rw [mem_identityUris_iff hComplete]
    have hLastMem := List.mem_of_getLast? hLast
    rcases hPath.denotes last hLastMem with
      ⟨entry, hReads, hExport⟩
    rcases exists_getElem?_of_mem
        (hPath.members last hLastMem) with ⟨index, hGet⟩
    rcases
      takesAt_of_reached hGet
        (reached_of_complete hComplete hGet
          (Or.inr ⟨entry, Or.inl hReads, hExport.possible⟩)) with
      ⟨turn, colour, hTakes⟩
    cases colour with
    | proven => exact provenDocument_of_takes hTakes hOccurs
    | disjoint =>
      exact hKeeps path last hPath hLast hOccurs turn hTakes
  · intro hComplete hSound path last hPath hLast hOccurs _ _
    rw [← mem_identityUris_iff hComplete]
    exact hSound hComplete path last hPath hLast hOccurs

----------
-- Conflicts
----------

/-
  No binding reads an export that is reached both from the
  declaration and from something else.
-/
def ConflictFree (input : ChainInput) : Prop :=
  ∀ binding ∈ input.bindings,
    ∀ entry,
      Reads binding entry →
        ¬ (Denotes input .proven entry ∧
          Denotes input .disjoint entry)

/- Without conflicts every order of turns keeps colours. -/
theorem keepsColours_of_conflictFree
    (hFree : ConflictFree input) :
    KeepsColours input := by
  intro path last hPath hLast hOccurs turn hTakes
  have hLastMem := List.mem_of_getLast? hLast
  rcases hPath.denotes last hLastMem with
    ⟨entry, hReads, hProven⟩
  rcases hTakes.2 with
    ⟨_, hStart⟩ | ⟨source, hOther, hOwn, _⟩
  · exact
      absurd hStart
        (not_startsDisjoint_of_reads hReads hProven.isKnown)
  · rw [hOther.eq hReads] at hOwn
    exact
      absurd ⟨hProven, hOwn.denotes⟩
        (hFree last (hPath.members last hLastMem) entry hReads)

----------
-- A Conflict of Two Sources
----------

/- A named binding that resolves to one source document. -/
def uniqueBinding
    (kind : ReferenceBindingKind)
    (uri source specifier : String) : ReferenceBinding where
  importedName := "Card"
  localName := "Card"
  sourceSpecifier := specifier
  kind := kind
  uri := uri
  sourceResolution := .unique
  resolvedSourceUri := some source
  externalTerminalIdentity := none

theorem uniqueBinding_reads
    (kind : ReferenceBindingKind)
    (uri source specifier : String) :
    Reads (uniqueBinding kind uri source specifier)
      (source, "Card") :=
  ⟨rfl, rfl, rfl⟩

def cardOccurrence (uri : String) :
    ReferenceOccurrenceIdentity where
  name := "Card"
  uri := uri
  qualified := some false
  qualifier := none

/-
  `index.ets` re-exports the name from two documents and
  `page.ets` imports it; only one of the two declares it.
-/
def conflictInput : ChainInput where
  bindings :=
    [uniqueBinding .reExport "file:///p/index.ets"
        "file:///p/other.ets" "./other",
      uniqueBinding .import_ "file:///p/page.ets"
        "file:///p/index.ets" "./index",
      uniqueBinding .reExport "file:///p/index.ets"
        "file:///p/card.ets" "./card"]
  occurrences :=
    [cardOccurrence "file:///p/card.ets",
      cardOccurrence "file:///p/index.ets",
      cardOccurrence "file:///p/other.ets",
      cardOccurrence "file:///p/page.ets"]
  independentDeclarations := {("file:///p/other.ets", "Card")}
  declarationUri := "file:///p/card.ets"
  declarationName := "Card"
  referenceExportName := "Card"
  limit := 16

theorem conflictInput_proof :
    proveReferenceBindingChain conflictInput =
      (true, ["file:///p/card.ets", "file:///p/index.ets"],
        ["file:///p/card.ets"]) := by
  decide +kernel

/-
  The importing document reaches the declaration through
  `index.ets` but is left out of a complete identity.
-/
theorem not_sound_conflictInput :
    ¬ SoundIdentity conflictInput := by
  intro hSound
  have hPath :
      BindingPath conflictInput
        [uniqueBinding .reExport "file:///p/index.ets"
            "file:///p/card.ets" "./card",
          uniqueBinding .import_ "file:///p/page.ets"
            "file:///p/index.ets" "./index"] := by
    refine ⟨?_, ?_, ?_, ?_⟩
    · simp [conflictInput]
    · simp [uniqueBinding]
    · simp [Reads, uniqueBinding, conflictInput]
    · simp [LinksTo, uniqueBinding]
  have hMem :=
    hSound (by rw [conflictInput_proof]) _ _ hPath rfl
      (Or.inr
        ⟨cardOccurrence "file:///p/page.ets",
          by simp [conflictInput], rfl, Or.inl rfl⟩)
  rw [conflictInput_proof] at hMem
  revert hMem
  decide

/- The same documents without the second source. -/
def chainInput : ChainInput :=
  { conflictInput with
    bindings :=
      [uniqueBinding .import_ "file:///p/page.ets"
          "file:///p/index.ets" "./index",
        uniqueBinding .reExport "file:///p/index.ets"
          "file:///p/card.ets" "./card"] }

/- Only the other document declares something else. -/
theorem chainInput_disjoint
    {colour : Colour}
    {entry : String × String}
    (hDenotes : Denotes chainInput colour entry)
    (hDisjoint : colour = .disjoint) :
    entry = ("file:///p/other.ets", "Card") := by
  induction hDenotes with
  | declaration => cases hDisjoint
  | independent hMem => exact Finset.mem_singleton.mp hMem
  | start hMem hStart _ =>
    simp only [chainInput, List.mem_cons, List.not_mem_nil,
      or_false] at hMem
    rcases hMem with rfl | rfl <;>
      exact
        absurd hStart
          (not_startsDisjoint_of_reads
            (uniqueBinding_reads _ _ _ _) (by decide))
  | reExport hMem hReads _ hKind ih =>
    simp only [chainInput, List.mem_cons, List.not_mem_nil,
      or_false] at hMem
    have hSource := ih hDisjoint
    rcases hMem with rfl | rfl
    · cases hKind
    · have hUri := hReads.2.1
      rw [hSource] at hUri
      revert hUri
      decide

theorem chainInput_keepsColours : KeepsColours chainInput := by
  refine keepsColours_of_conflictFree ?_
  rintro binding hMem entry hReads ⟨_, hDisjoint⟩
  have hUri := hReads.2.1
  rw [chainInput_disjoint hDisjoint rfl] at hUri
  simp only [chainInput, List.mem_cons, List.not_mem_nil,
    or_false] at hMem
  rcases hMem with rfl | rfl <;>
    · revert hUri
      decide

/- Both sources, but the import has the last turn. -/
def lastImportInput : ChainInput :=
  { conflictInput with
    bindings :=
      [uniqueBinding .reExport "file:///p/index.ets"
          "file:///p/other.ets" "./other",
        uniqueBinding .reExport "file:///p/index.ets"
          "file:///p/card.ets" "./card",
        uniqueBinding .import_ "file:///p/page.ets"
          "file:///p/index.ets" "./index"] }

/- The colours of the re-exported name at the third turn. -/
theorem lastImportInput_colours :
    TakesAt lastImportInput 1
        (uniqueBinding .reExport "file:///p/index.ets"
          "file:///p/card.ets" "./card") .proven ∧
      ColouredAt lastImportInput 2 .proven
        ("file:///p/index.ets", "Card") := by
  have hTakes :
      TakesAt lastImportInput 1
        (uniqueBinding .reExport "file:///p/index.ets"
          "file:///p/card.ets" "./card") .proven := by
    refine
      ⟨rfl,
        Or.inr ⟨_, uniqueBinding_reads _ _ _ _, Or.inl rfl, ?_⟩⟩
    rintro (hMem | ⟨binding, hTurn, _, _, hSame⟩)
    · have hIndependent :
          ("file:///p/card.ets", "Card")
            ∈ lastImportInput.independentDeclarations := hMem
      exact absurd hIndependent (by decide)
    · cases hTurn
      revert hSame
      decide
  exact ⟨hTakes, Or.inr ⟨_, rfl, hTakes.2, rfl, rfl⟩⟩

/- The import meets both colours at each of its turns. -/
theorem lastImportInput_keepsColours :
    KeepsColours lastImportInput := by
  intro path last hPath hLast _ turn hTakes
  rcases lastImportInput_colours with ⟨hCard, hProven⟩
  have hIndex :
      ProvenDocument lastImportInput "file:///p/index.ets" :=
    provenDocument_of_takes hCard
      (Or.inr
        ⟨cardOccurrence "file:///p/index.ets", by decide, rfl,
          Or.inl rfl⟩)
  have hMem := hPath.members last (List.mem_of_getLast? hLast)
  simp only [lastImportInput, List.mem_cons, List.not_mem_nil,
    or_false] at hMem
  rcases hMem with rfl | rfl | rfl
  · exact hIndex
  · exact hIndex
  · have hLate : 2 ≤ turn := by
      by_contra hEarly
      have hCases : turn = 0 ∨ turn = 1 := by omega
      have hTurn := hTakes.1
      rcases hCases with rfl | rfl <;>
        · revert hTurn
          decide
    rcases hTakes.2 with
      ⟨_, hStart⟩ | ⟨entry, hReads, _, hNot⟩
    · exact
        absurd hStart
          (not_startsDisjoint_of_reads
            (uniqueBinding_reads _ _ _ _) (by decide))
    · have hEntry :
          entry = ("file:///p/index.ets", "Card") :=
        hReads.eq (uniqueBinding_reads _ _ _ _)
      rw [hEntry] at hNot
      exact absurd (hProven.later hLate) hNot

/- A complete identity, and two sources in a good order. -/
theorem sound_samples :
    (proveReferenceBindingChain chainInput).1 = true ∧
      SoundIdentity chainInput ∧
      SoundIdentity lastImportInput :=
  ⟨by decide +kernel,
    (sound_iff_keepsColours chainInput).1
      chainInput_keepsColours,
    (sound_iff_keepsColours lastImportInput).1
      lastImportInput_keepsColours⟩

end BindingChain

end ArktsServer
