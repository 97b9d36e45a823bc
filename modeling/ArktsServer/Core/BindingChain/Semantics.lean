import ArktsServer.Core.BindingChain.Algorithm

/-
  What the identity proof is about, without the loops: the
  exports that may denote the declaration, the colours that
  exports take while the bindings take turns, and the paths
  of bindings that lead to the declaration.

  Key definitions include:
    * `Reads`, `PossibleExport`, `PossibleBinding`
    * `StartsDisjoint`
    * `Takes`, `ColouredAt`, `TakesAt`
    * `ProvenDocument`
    * `Denotes`, `BindingPath`
-/

----------
-- Reading an Export
----------

namespace ArktsServer

namespace BindingChain

/- A binding reads the named export of a unique source. -/
def Reads
    (binding : ReferenceBinding)
    (entry : String × String) : Prop :=
  binding.sourceResolution = .unique ∧
    binding.resolvedSourceUri = some entry.1 ∧
    binding.importedName = entry.2

/- A binding may read an export of an ambiguous source. -/
def MayRead
    (binding : ReferenceBinding)
    (entry : String × String) : Prop :=
  binding.sourceResolution = .ambiguous ∧
    binding.importedName = entry.2 ∧
    ∃ candidates,
      relativeSourceUriCandidates binding.uri
          binding.sourceSpecifier = some candidates ∧
        entry.1 ∈ candidates

variable {binding : ReferenceBinding}

/- A binding reads at most one export. -/
theorem Reads.eq
    {left right : String × String}
    (hLeft : Reads binding left)
    (hRight : Reads binding right) :
    left = right := by
  apply Prod.ext
  · exact Option.some.inj (hLeft.2.1.symm.trans hRight.2.1)
  · exact hLeft.2.2.symm.trans hRight.2.2

theorem sourceIsPossible_iff
    {exports : NameMap}
    {binding : ReferenceBinding} :
    sourceIsPossible exports binding = true ↔
      ∃ entry ∈ exports,
        Reads binding entry ∨ MayRead binding entry := by
  unfold sourceIsPossible Reads MayRead
  constructor
  · intro hSource
    split at hSource
    next hUnique =>
      split at hSource
      next uri hUri =>
        exact
          ⟨(uri, binding.importedName),
            of_decide_eq_true hSource,
            Or.inl ⟨hUnique, hUri, rfl⟩⟩
      next => simp at hSource
    next hAmbiguous =>
      split at hSource
      next candidates hCandidates =>
        rcases List.any_eq_true.mp hSource with
          ⟨uri, hUri, hMem⟩
        exact
          ⟨(uri, binding.importedName),
            of_decide_eq_true hMem,
            Or.inr
              ⟨hAmbiguous, rfl, candidates, hCandidates, hUri⟩⟩
      next => simp at hSource
    next => simp at hSource
  · rintro ⟨⟨uri, name⟩, hMem, hRead⟩
    rcases hRead with
      ⟨hUnique, hUri, hName⟩ |
      ⟨hAmbiguous, hName, candidates, hCandidates, hUri⟩
    · subst hName
      simp_all
    · subst hName
      simp only [hAmbiguous, hCandidates]
      exact List.any_eq_true.mpr ⟨uri, hUri, decide_eq_true hMem⟩

----------
-- Possible Exports
----------

section Exports

variable (input : ChainInput)

/- Exports that may denote the declaration. -/
inductive PossibleExport : String × String → Prop
| declaration :
    PossibleExport
      (input.declarationUri, input.referenceExportName)
| seed {binding : ReferenceBinding} :
    binding ∈ input.bindings →
      seedsPossible input binding = true →
      binding.kind = .reExport →
      PossibleExport (binding.uri, binding.localName)
| reExport
    {binding : ReferenceBinding}
    {entry : String × String} :
    binding ∈ input.bindings →
      Reads binding entry ∨ MayRead binding entry →
      PossibleExport entry →
      binding.kind = .reExport →
      PossibleExport (binding.uri, binding.localName)

/- Bindings that may denote the declaration. -/
def PossibleBinding (binding : ReferenceBinding) : Prop :=
  seedsPossible input binding = true ∨
    ∃ entry,
      (Reads binding entry ∨ MayRead binding entry) ∧
        PossibleExport input entry

/-
  A binding that denotes something other than the
  declaration whatever the other bindings are.
-/
def StartsDisjoint (binding : ReferenceBinding) : Prop :=
  isExternal binding = true ∨
    isMissingImport binding = true ∨
    (binding.sourceResolution = .ambiguous ∧
      ¬ PossibleBinding input binding) ∨
    ∃ entry, Reads binding entry ∧ ¬ input.IsKnown entry.1

end Exports

----------
-- Known Documents
----------

variable {input : ChainInput}

theorem isKnown_of_mem_bindings
    (hMem : binding ∈ input.bindings) :
    input.IsKnown binding.uri := by
  left
  simp only [ChainInput.knownUris, List.mem_append, List.mem_map]
  exact Or.inl (Or.inr ⟨binding, hMem, rfl⟩)

variable {entry : String × String}

/- A uniquely resolved binding to a known document. -/
theorem not_startsDisjoint_of_reads
    (hReads : Reads binding entry)
    (hKnown : input.IsKnown entry.1) :
    ¬ StartsDisjoint input binding := by
  rintro (hExternal | hMissing | ⟨hAmbiguous, _⟩ |
    ⟨other, hOther, hUnknown⟩)
  · simp [isExternal, hReads.1] at hExternal
  · simp [isMissingImport, hReads.1] at hMissing
  · rw [hReads.1] at hAmbiguous
    cases hAmbiguous
  · rw [← hReads.eq hOther] at hUnknown
    exact hUnknown hKnown

----------
-- Colours of Exports
----------

/- An export denotes the declaration, or something else. -/
inductive Colour
| proven
| disjoint
deriving DecidableEq

def Colour.other : Colour → Colour
| .proven => .disjoint
| .disjoint => .proven

section Turns

variable (input : ChainInput)

/-
  A binding takes a colour that its source has alone, and it
  may be disjoint from the start.
-/
def Takes
    (coloured : Colour → String × String → Prop)
    (binding : ReferenceBinding)
    (colour : Colour) : Prop :=
  (colour = .disjoint ∧ StartsDisjoint input binding) ∨
    ∃ entry,
      Reads binding entry ∧
        coloured colour entry ∧
        ¬ coloured colour.other entry

/- The binding whose turn it is, round after round. -/
def turnBinding? (turn : Nat) : Option ReferenceBinding :=
  Saturation.turnItem? input.bindings turn

/-
  The colours that exports have before a turn.  A re-export
  hands on the colour that it takes at its turn, and no
  colour is ever revoked.
-/
def ColouredAt : Nat → Colour → String × String → Prop
| 0, .proven, entry =>
    entry = (input.declarationUri, input.referenceExportName)
| 0, .disjoint, entry => entry ∈ input.independentDeclarations
| turn + 1, colour, entry =>
    ColouredAt turn colour entry ∨
      ∃ binding,
        turnBinding? input turn = some binding ∧
          Takes input (ColouredAt turn) binding colour ∧
          binding.kind = .reExport ∧
          entry = (binding.uri, binding.localName)

/- The binding takes the colour at that turn. -/
def TakesAt
    (turn : Nat)
    (binding : ReferenceBinding)
    (colour : Colour) : Prop :=
  turnBinding? input turn = some binding ∧
    Takes input (ColouredAt input turn) binding colour

----------
-- Proven Documents
----------

/- A name that a binding introduces in its document. -/
def Introduces
    (binding : ReferenceBinding)
    (entry : String × String) : Prop :=
  entry = (binding.uri, binding.localName) ∨
    entry = (binding.uri, binding.importedName)

/- Names of the declaration and of bindings to it. -/
def ProvenName (entry : String × String) : Prop :=
  entry = (input.declarationUri, input.declarationName) ∨
    entry =
      (input.declarationUri, input.referenceExportName) ∨
    ∃ turn binding,
      TakesAt input turn binding .proven ∧
        Introduces binding entry

/-
  A binding of the document takes the proven colour, or for
  a named export, a name that denotes the declaration occurs
  in the document.
-/
def ProvenDocument (uri : String) : Prop :=
  if input.referenceExportName = "default" then
    uri = input.declarationUri ∨
      ∃ turn binding,
        TakesAt input turn binding .proven ∧
          binding.uri = uri
  else
    ∃ occurrence ∈ input.occurrences,
      occurrence.uri = uri ∧
        ProvenName input (occurrence.uri, occurrence.name)

end Turns

variable {turn : Nat}

theorem mem_of_turnBinding?
    (hTurn : turnBinding? input turn = some binding) :
    binding ∈ input.bindings :=
  List.mem_of_getElem? hTurn

variable {colour : Colour}

theorem colouredAt_succ
    {entry : String × String} :
    ColouredAt input (turn + 1) colour entry ↔
      ColouredAt input turn colour entry ∨
        ∃ binding,
          turnBinding? input turn = some binding ∧
            Takes input (ColouredAt input turn) binding
              colour ∧
            binding.kind = .reExport ∧
            entry = (binding.uri, binding.localName) :=
  Iff.rfl

/- Colours stay for all later turns. -/
theorem ColouredAt.later
    {turn later : Nat}
    (hColoured : ColouredAt input turn colour entry)
    (hLater : turn ≤ later) :
    ColouredAt input later colour entry := by
  induction hLater with
  | refl => exact hColoured
  | step _ ih => exact Or.inl ih

----------
-- What an Export Denotes
----------

/- What an export denotes, whatever the order of turns. -/
inductive Denotes
    (input : ChainInput) : Colour → String × String → Prop
| declaration :
    Denotes input .proven
      (input.declarationUri, input.referenceExportName)
| independent {entry : String × String} :
    entry ∈ input.independentDeclarations →
      Denotes input .disjoint entry
| start {binding : ReferenceBinding} :
    binding ∈ input.bindings →
      StartsDisjoint input binding →
      binding.kind = .reExport →
      Denotes input .disjoint (binding.uri, binding.localName)
| reExport
    {binding : ReferenceBinding}
    {colour : Colour}
    {entry : String × String} :
    binding ∈ input.bindings →
      Reads binding entry →
      Denotes input colour entry →
      binding.kind = .reExport →
      Denotes input colour (binding.uri, binding.localName)

theorem Denotes.isKnown
    (hDenotes : Denotes input colour entry) :
    input.IsKnown entry.1 := by
  cases hDenotes with
  | declaration =>
    left
    simp [ChainInput.knownUris]
  | independent hMem => exact Or.inr ⟨_, hMem, rfl⟩
  | start hMem _ _ => exact isKnown_of_mem_bindings hMem
  | reExport hMem _ _ _ => exact isKnown_of_mem_bindings hMem

theorem Denotes.possible
    (hDenotes : Denotes input .proven entry) :
    PossibleExport input entry := by
  generalize hColour : Colour.proven = colour at hDenotes
  induction hDenotes with
  | declaration => exact PossibleExport.declaration
  | independent _ => cases hColour
  | start _ _ _ => cases hColour
  | reExport hMem hReads _ hKind ih =>
    exact
      PossibleExport.reExport hMem (Or.inl hReads)
        (ih hColour) hKind

theorem ColouredAt.denotes
    (hColoured : ColouredAt input turn colour entry) :
    Denotes input colour entry := by
  induction turn generalizing colour entry with
  | zero =>
    cases colour with
    | proven =>
      rw [hColoured]
      exact Denotes.declaration
    | disjoint => exact Denotes.independent hColoured
  | succ turn ih =>
    rcases hColoured with
      hOld | ⟨binding, hTurn, hTakes, hKind, rfl⟩
    · exact ih hOld
    · have hMem := mem_of_turnBinding? hTurn
      rcases hTakes with
        ⟨rfl, hStart⟩ | ⟨source, hReads, hOwn, _⟩
      · exact Denotes.start hMem hStart hKind
      · exact Denotes.reExport hMem hReads (ih hOwn) hKind

----------
-- Paths of Bindings
----------

/- The first binding re-exports what the second imports. -/
def LinksTo (left right : ReferenceBinding) : Prop :=
  left.kind = .reExport ∧
    right.resolvedSourceUri = some left.uri ∧
    right.importedName = left.localName

/-
  A path of uniquely resolved bindings that leaves the
  declaration and continues through re-exports.
-/
structure BindingPath
    (input : ChainInput)
    (path : List ReferenceBinding) : Prop where
  members : ∀ binding ∈ path, binding ∈ input.bindings
  unique :
    ∀ binding ∈ path, binding.sourceResolution = .unique
  starts :
    ∀ binding ∈ path.head?,
      Reads binding
        (input.declarationUri, input.referenceExportName)
  linked : path.IsChain LinksTo

/- Every binding of a path reads the declaration. -/
theorem BindingPath.denotes
    {path : List ReferenceBinding}
    (hPath : BindingPath input path) :
    ∀ binding ∈ path,
      ∃ entry,
        Reads binding entry ∧ Denotes input .proven entry := by
  rcases hPath with ⟨hMembers, hUnique, hStarts, hLinked⟩
  cases path with
  | nil => simp
  | cons first rest =>
    have hFirst :
        ∃ entry,
          Reads first entry ∧ Denotes input .proven entry :=
      ⟨_, hStarts first rfl, Denotes.declaration⟩
    clear hStarts
    induction rest generalizing first with
    | nil => simpa using hFirst
    | cons second rest ih =>
      rcases List.isChain_cons_cons.mp hLinked with
        ⟨⟨hKind, hUri, hName⟩, hRest⟩
      rcases hFirst with ⟨entry, hReads, hExport⟩
      have hSecond :
          ∃ entry,
            Reads second entry ∧ Denotes input .proven entry :=
        ⟨(first.uri, first.localName),
          ⟨hUnique second (by simp), hUri, hName⟩,
          Denotes.reExport (hMembers first List.mem_cons_self)
            hReads hExport hKind⟩
      intro binding hBinding
      rcases List.mem_cons.mp hBinding with rfl | hTail
      · exact ⟨entry, hReads, hExport⟩
      · refine ih second ?_ ?_ hRest hSecond binding hTail
        · intro other hOther
          exact hMembers other (List.mem_cons_of_mem _ hOther)
        · intro other hOther
          exact hUnique other (List.mem_cons_of_mem _ hOther)

end BindingChain

end ArktsServer
