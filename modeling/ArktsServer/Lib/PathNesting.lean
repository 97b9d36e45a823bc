import ArktsServer.Lib.UnixPath

/-
  How absolute Unix paths lie in each other, and how it shows
  in the text of a relative path: the way down has no `..` in
  front, the way up to the parent is nothing but `..`, and
  every other way starts with `../`.

  Main declarations:
    * `UnixPath.AbsolutePath.Below`,
      `UnixPath.AbsolutePath.ParentOf`
    * `UnixPath.AbsolutePath.relative_below`,
      `UnixPath.AbsolutePath.relative_parent`,
      `UnixPath.AbsolutePath.relative_outside`
    * `UnixPath.AbsolutePath.text_injective`
-/

namespace ArktsServer

namespace UnixPath

----------
-- Common Segments
----------

/- What two lists of segments share comes off both. -/
theorem relativeSegments_spec
    (start target : List (List Char)) :
    ∃ common up down,
      start = common ++ up ∧
        target = common ++ down ∧
        (up = [] ∨ down = [] ∨ up.head? ≠ down.head?) ∧
        relativeSegments start target =
          up.map (fun _ => ['.', '.']) ++ down := by
  induction start generalizing target with
  | nil =>
    refine ⟨[], [], target, rfl, rfl, Or.inl rfl, ?_⟩
    cases target with
    | nil => rfl
    | cons second target => rfl
  | cons first start ih =>
    cases target with
    | nil =>
      exact
        ⟨[], first :: start, [], rfl, rfl,
          Or.inr (Or.inl rfl), rfl⟩
    | cons second target =>
      by_cases hSame : first = second
      · subst hSame
        rcases ih target with
          ⟨common, up, down, rfl, rfl, hApart, hWay⟩
        refine ⟨first :: common, up, down, rfl, rfl, hApart, ?_⟩
        rw [relativeSegments, if_pos rfl]
        exact hWay
      · refine
          ⟨[], first :: start, second :: target, rfl, rfl,
            Or.inr (Or.inr ?_), ?_⟩
        · intro hHead
          injection hHead with hHead
          exact hSame hHead
        · rw [relativeSegments, if_neg hSame]

namespace AbsolutePath

----------
-- Nesting
----------

/- A path strictly inside another one. -/
def Below (path root : AbsolutePath) : Prop :=
  root.segments <+: path.segments ∧
    root.segments ≠ path.segments

instance (path root : AbsolutePath) :
    Decidable (Below path root) :=
  inferInstanceAs (Decidable (_ ∧ _))

/- The directory that has another path as an entry. -/
def ParentOf (path child : AbsolutePath) : Prop :=
  ∃ name, child.segments = path.segments ++ [name]

theorem ext_segments
    {path other : AbsolutePath}
    (hSegments : path.segments = other.segments) :
    path = other := by
  cases path
  cases other
  cases hSegments
  rfl

theorem text_injective
    {path other : AbsolutePath}
    (hText : path.text = other.text) :
    path = other := by
  refine ext_segments ?_
  rw [← normalSegments_render path.proper,
    ← normalSegments_render other.proper]
  exact congrArg normalSegments hText

/- Whatever a path lies in is nested. -/
theorem below_total
    {path root other : AbsolutePath}
    (hRoot : path.Below root)
    (hOther : path.Below other) :
    root.segments <+: other.segments ∨ root.Below other := by
  rcases List.prefix_or_prefix_of_prefix hRoot.1 hOther.1 with
    hFirst | hSecond
  · exact Or.inl hFirst
  · by_cases hSame : other.segments = root.segments
    · rw [hSame]
      exact Or.inl List.prefix_rfl
    · exact Or.inr ⟨hSecond, hSame⟩

----------
-- Relative Paths
----------

variable (cwd : List Char)

theorem relative_text
    (root path : AbsolutePath) :
    relative cwd root.text path.text =
      (slashed
        (relativeSegments root.segments
          path.segments)).tail := by
  unfold relative
  rw [resolve_text, resolve_text]
  unfold text
  rw [normalSegments_render root.proper,
    normalSegments_render path.proper]

/- A name is not mistaken for the way up. -/
theorem not_up_of_proper
    {name : List Char}
    (hName : Proper name)
    (rest : List Char) :
    name ++ rest ≠ [] ∧
      ['.', '.', '/'].isPrefixOf (name ++ rest) = false ∧
      (name ++ rest).head? ≠ some '/' := by
  refine ⟨?_, ?_, ?_⟩
  · intro hNil
    exact hName.nonempty (List.append_eq_nil_iff.mp hNil).1
  · by_contra hUp
    rw [Bool.not_eq_false, List.isPrefixOf_iff_prefix] at hUp
    rcases hUp with ⟨tail, hTail⟩
    cases name with
    | nil => exact hName.nonempty rfl
    | cons first others =>
      injection hTail with hFirst hTail
      cases others with
      | nil => exact hName.notDot (by rw [← hFirst])
      | cons second others =>
        injection hTail with hSecond hTail
        cases others with
        | nil =>
          exact hName.notDotDot (by rw [← hFirst, ← hSecond])
        | cons third others =>
          injection hTail with hThird _
          refine hName.slashless ?_
          rw [← hThird]
          simp
  · intro hHead
    cases name with
    | nil => exact hName.nonempty rfl
    | cons first others =>
      injection hHead with hFirst
      refine hName.slashless ?_
      rw [hFirst]
      exact List.mem_cons_self

variable {root path : AbsolutePath}

/- The way down starts with a name. -/
theorem relative_below
    (hBelow : path.Below root) :
    relative cwd root.text path.text ≠ [] ∧
      ['.', '.', '/'].isPrefixOf
          (relative cwd root.text path.text) = false ∧
      (relative cwd root.text path.text).head? ≠
        some '/' := by
  rw [relative_text]
  rcases relativeSegments_spec root.segments path.segments with
    ⟨common, up, down, hStart, hTarget, hApart, hWay⟩
  rw [hWay]
  rcases hBelow with ⟨hInside, hOther⟩
  rw [hStart, hTarget] at hInside hOther
  have hUp : up <+: down :=
    (List.prefix_append_right_inj common).mp hInside
  cases up with
  | cons first up =>
    cases down with
    | nil => cases List.prefix_nil.mp hUp
    | cons second down =>
      rcases hApart with hNil | hNil | hHead
      · cases hNil
      · cases hNil
      · refine absurd ?_ hHead
        exact congrArg some (List.cons_prefix_cons.mp hUp).1
  | nil =>
    cases down with
    | nil => exact absurd rfl hOther
    | cons name down =>
      have hName : Proper name :=
        path.proper name (by
          rw [hTarget]
          simp)
      exact not_up_of_proper hName (slashed down)

/- The way to the parent is nothing but `..`. -/
theorem relative_parent
    (hParent : path.ParentOf root) :
    relative cwd root.text path.text = ['.', '.'] := by
  rw [relative_text]
  rcases hParent with ⟨name, hRoot⟩
  have hWay : ∀ segments : List (List Char),
      relativeSegments (segments ++ [name]) segments =
        [['.', '.']] := by
    intro segments
    induction segments with
    | nil => rfl
    | cons first segments ih =>
      rw [List.cons_append, relativeSegments, if_pos rfl]
      exact ih
  rw [hRoot, hWay]
  rfl

/- Every other way starts with `../` or stays. -/
theorem relative_outside
    (hBelow : ¬ path.Below root)
    (hParent : ¬ path.ParentOf root) :
    relative cwd root.text path.text = [] ∨
      ['.', '.', '/'].isPrefixOf
          (relative cwd root.text path.text) = true := by
  rw [relative_text]
  rcases relativeSegments_spec root.segments path.segments with
    ⟨common, up, down, hStart, hTarget, hApart, hWay⟩
  rw [hWay]
  cases up with
  | nil =>
    cases down with
    | nil => exact Or.inl rfl
    | cons name down =>
      refine absurd ⟨?_, ?_⟩ hBelow
      · rw [hStart, hTarget, List.append_nil]
        exact List.prefix_append _ _
      · rw [hStart, hTarget]
        simp
  | cons first up =>
    refine Or.inr ?_
    cases up with
    | nil =>
      cases down with
      | nil =>
        refine absurd ⟨first, ?_⟩ hParent
        rw [hStart, hTarget, List.append_nil]
      | cons name down => rfl
    | cons second up => rfl

end AbsolutePath

end UnixPath

end ArktsServer
