import Mathlib.Data.List.Basic
import Mathlib.Data.List.Infix
import Mathlib.Data.List.Induction
import Mathlib.Tactic.Common

/-
  Absolute paths over any alphabet as walks from the root,
  and the encodings of letters that commute with splitting
  and normalizing.  A walk fails exactly when one of its
  beginnings goes up more often than down.

  Main declarations:
    * `PathSegments.normalizeWalk`
    * `PathSegments.normalizeWalk_eq_none_iff`
    * `PathSegments.NormalPath`, `NormalPath.follow`
    * `PathSegments.Plain`, `PathSegments.Respects`
    * `PathSegments.normalizeWalk_encode`
    * `PathSegments.suffix_encode_iff`
-/

namespace ArktsServer

namespace PathSegments

----------
-- Walks
----------

/- What a segment does to a walk. -/
inductive Move where
| stay
| up
| down
deriving DecidableEq

def Move.delta : Move → Int
| .stay => 0
| .up => -1
| .down => 1

section Walks

variable {σ τ : Type*}

/- One segment of a walk that must not leave the root. -/
def step
    (move : σ → Move)
    (kept : List σ)
    (segment : σ) : Option (List σ) :=
  match move segment with
  | .stay => some kept
  | .up => if kept.isEmpty then none else some kept.dropLast
  | .down => some (kept ++ [segment])

variable (move : σ → Move)

def normalizeWalk
    (segments : List σ) : Option (List σ) :=
  segments.foldlM (step move) []

/- How far below its start a walk ends. -/
def depth (move : σ → Move) : List σ → Int
| [] => 0
| segment :: segments =>
    (move segment).delta + depth move segments

/- Some beginning of the walk lies above its start. -/
def Climbs
    (segments : List σ) : Prop :=
  ∃ front, front <+: segments ∧ depth move front < 0

theorem step_stay
    {move : σ → Move}
    {segment : σ}
    (hMove : move segment = .stay)
    (kept : List σ) :
    step move kept segment = some kept := by
  unfold step
  rw [hMove]

theorem step_up
    {move : σ → Move}
    {segment : σ}
    (hMove : move segment = .up)
    (kept : List σ) :
    step move kept segment =
      if kept.isEmpty then none else some kept.dropLast := by
  unfold step
  rw [hMove]

theorem step_down
    {move : σ → Move}
    {segment : σ}
    (hMove : move segment = .down)
    (kept : List σ) :
    step move kept segment = some (kept ++ [segment]) := by
  unfold step
  rw [hMove]

theorem foldlM_step_eq_none_iff
    (segments kept : List σ) :
    segments.foldlM (step move) kept = none ↔
      ∃ front, front <+: segments ∧
        (kept.length : Int) + depth move front < 0 := by
  induction segments generalizing kept with
  | nil =>
    simp only [List.foldlM_nil, Option.pure_def,
      reduceCtorEq, List.prefix_nil, false_iff]
    rintro ⟨front, rfl, hBelow⟩
    unfold depth at hBelow
    omega
  | cons segment rest ih =>
    have hSplit :
        (∃ front, front <+: segment :: rest ∧
          (kept.length : Int) + depth move front < 0) ↔
        ∃ front, front <+: rest ∧
          (kept.length : Int) + (move segment).delta
            + depth move front < 0 := by
      constructor
      · rintro ⟨front, hFront, hBelow⟩
        rcases List.prefix_cons_iff.mp hFront with
          rfl | ⟨tail, rfl, hTail⟩
        · unfold depth at hBelow
          omega
        · refine ⟨tail, hTail, ?_⟩
          unfold depth at hBelow
          omega
      · rintro ⟨front, hFront, hBelow⟩
        refine
          ⟨segment :: front,
            List.prefix_cons_iff.mpr
              (Or.inr ⟨front, rfl, hFront⟩), ?_⟩
        unfold depth
        omega
    rw [hSplit, List.foldlM_cons]
    cases hMove : move segment with
    | stay =>
      rw [step_stay hMove]
      simp only [Option.bind_eq_bind, Option.bind_some]
      rw [ih kept]
      simp only [Move.delta, Int.add_zero]
    | up =>
      rw [step_up hMove]
      by_cases hRoot : kept = []
      · subst hRoot
        simp only [List.isEmpty_nil, if_true,
          Option.bind_eq_bind, Option.bind_none,
          true_iff]
        refine ⟨[], List.nil_prefix, ?_⟩
        unfold depth
        simp [Move.delta]
      · have hLength : 0 < kept.length :=
          List.length_pos_iff.mpr hRoot
        have hCast :
            (kept.dropLast.length : Int) = kept.length + -1 := by
          rw [List.length_dropLast]
          omega
        simp only [List.isEmpty_iff, hRoot, if_false,
          Option.bind_eq_bind, Option.bind_some]
        rw [ih kept.dropLast, hCast]
        simp only [Move.delta]
    | down =>
      rw [step_down hMove]
      simp only [Option.bind_eq_bind, Option.bind_some]
      rw [ih (kept ++ [segment])]
      simp only [List.length_append,
        List.length_singleton, Int.natCast_add,
        Int.natCast_one, Move.delta]

/- A walk fails exactly when it climbs above the root. -/
theorem normalizeWalk_eq_none_iff
    (segments : List σ) :
    normalizeWalk move segments = none ↔
      Climbs move segments := by
  unfold normalizeWalk Climbs
  rw [foldlM_step_eq_none_iff]
  simp only [List.length_nil, Int.natCast_zero, Int.zero_add]

/- What is kept went down. -/
theorem foldlM_step_down
    {move : σ → Move}
    {segments kept result : List σ}
    (hKept : ∀ segment ∈ kept, move segment = .down)
    (hResult :
      segments.foldlM (step move) kept = some result) :
    ∀ segment ∈ result,
      move segment = .down ∧
        (segment ∈ kept ∨ segment ∈ segments) := by
  induction segments generalizing kept with
  | nil =>
    simp only [List.foldlM_nil, Option.pure_def,
      Option.some.injEq] at hResult
    subst hResult
    exact fun segment hMem =>
      ⟨hKept segment hMem, Or.inl hMem⟩
  | cons head rest ih =>
    rw [List.foldlM_cons] at hResult
    cases hStep : step move kept head with
    | none =>
      rw [hStep] at hResult
      cases hResult
    | some next =>
      rw [hStep] at hResult
      simp only [Option.bind_eq_bind, Option.bind_some] at hResult
      have hNext :
          ∀ segment ∈ next,
            move segment = .down ∧
              (segment ∈ kept ∨ segment = head) := by
        unfold step at hStep
        split at hStep
        · cases hStep
          exact fun segment hMem =>
            ⟨hKept segment hMem, Or.inl hMem⟩
        · split at hStep
          · cases hStep
          · cases hStep
            intro segment hMem
            have hOld := List.mem_of_mem_dropLast hMem
            exact ⟨hKept segment hOld, Or.inl hOld⟩
        · next hDown =>
          cases hStep
          intro segment hMem
          rcases List.mem_append.mp hMem with hOld | hNew
          · exact ⟨hKept segment hOld, Or.inl hOld⟩
          · rw [List.mem_singleton] at hNew
            exact ⟨hNew ▸ hDown, Or.inr hNew⟩
      intro segment hMem
      have hBoth :=
        ih (fun item hItem => (hNext item hItem).1)
          hResult segment hMem
      refine ⟨hBoth.1, ?_⟩
      rcases hBoth.2 with hOld | hLater
      · rcases (hNext segment hOld).2 with hIn | rfl
        · exact Or.inl hIn
        · exact Or.inr List.mem_cons_self
      · exact Or.inr (List.mem_cons_of_mem _ hLater)

/- Renaming segments commutes with the walk. -/
theorem foldlM_step_map
    {move : σ → Move}
    {other : τ → Move}
    {rename : σ → τ}
    (hMove : ∀ segment, other (rename segment) = move segment)
    (segments kept : List σ) :
    (segments.map rename).foldlM (step other)
        (kept.map rename)
      = (segments.foldlM (step move) kept).map
        (List.map rename) := by
  induction segments generalizing kept with
  | nil => simp
  | cons segment rest ih =>
    have hStep :
        step other (kept.map rename) (rename segment) =
          (step move kept segment).map (List.map rename) := by
      unfold step
      rw [hMove segment]
      cases move segment with
      | stay => rfl
      | up => by_cases hRoot : kept = [] <;> simp [hRoot]
      | down => simp
    rw [List.map_cons, List.foldlM_cons, List.foldlM_cons, hStep]
    cases step move kept segment with
    | none => rfl
    | some next =>
      simp only [Option.map_some, Option.bind_eq_bind,
        Option.bind_some]
      exact ih next

theorem normalizeWalk_map
    {move : σ → Move}
    {other : τ → Move}
    {rename : σ → τ}
    (hMove : ∀ segment, other (rename segment) = move segment)
    (segments : List σ) :
    normalizeWalk other (segments.map rename) =
      (normalizeWalk move segments).map (List.map rename) :=
  foldlM_step_map hMove segments []

end Walks

----------
-- Texts
----------

/- The letters that mean something in a path. -/
structure Marks (α : Type*) where
  slash : α
  dot : α

section Texts

variable {α β : Type*} [DecidableEq α] [DecidableEq β]

/- The parent of the directory goes up, a name down. -/
def moveOf (marks : Marks α) (segment : List α) : Move :=
  if segment = [] ∨ segment = [marks.dot] then
    .stay
  else if segment = [marks.dot, marks.dot] then
    .up
  else
    .down

/- The segments of a relative or an absolute text. -/
def segmentsOf
    (marks : Marks α)
    (text : List α) : List (List α) :=
  text.splitOn marks.slash

/- A name between two slashes. -/
structure Name
    (marks : Marks α)
    (segment : List α) : Prop where
  slashless : marks.slash ∉ segment
  down : moveOf marks segment = .down

structure NormalPath (marks : Marks α) where
  segments : List (List α)
  names : ∀ segment ∈ segments, Name marks segment

namespace NormalPath

variable {marks : Marks α}

def text (path : NormalPath marks) : List α :=
  marks.slash :: [marks.slash].intercalate path.segments

/- The walk to a text from the directory of a path. -/
def walk
    (path : NormalPath marks)
    (relative : List α) : List (List α) :=
  path.segments.dropLast ++ segmentsOf marks relative

end NormalPath

omit [DecidableEq β] in
theorem slashless_of_mem_splitOn
    {slash : α}
    {text segment : List α}
    (hMem : segment ∈ text.splitOn slash) :
    slash ∉ segment := by
  induction text generalizing segment with
  | nil =>
    simp only [List.splitOn_nil, List.mem_singleton] at hMem
    subst hMem
    exact List.not_mem_nil
  | cons letter rest ih =>
    rw [List.splitOn_cons_eq_if_modifyHead] at hMem
    by_cases hSlash : letter = slash
    · simp only [hSlash, BEq.rfl, if_true,
        List.mem_cons] at hMem
      rcases hMem with rfl | hRest
      · exact List.not_mem_nil
      · exact ih hRest
    · simp only [beq_iff_eq, hSlash, if_false] at hMem
      cases hSplit : rest.splitOn slash with
      | nil =>
        exact absurd hSplit (List.splitOn_ne_nil _ _)
      | cons first others =>
        rw [hSplit] at hMem ih
        simp only [List.modifyHead_cons, List.mem_cons] at hMem
        rcases hMem with rfl | hOther
        · intro hIn
          rcases List.mem_cons.mp hIn with rfl | hFirst
          · exact hSlash rfl
          · exact ih List.mem_cons_self hFirst
        · exact ih (List.mem_cons_of_mem _ hOther)

namespace NormalPath

variable {marks : Marks α}

omit [DecidableEq β] in
theorem names_of_normalizeWalk
    {path : NormalPath marks}
    {relative : List α}
    {result : List (List α)}
    (hResult :
      normalizeWalk (moveOf marks) (path.walk relative) =
        some result) :
    ∀ segment ∈ result, Name marks segment := by
  intro segment hMem
  have hBoth :=
    foldlM_step_down (List.forall_mem_nil _) hResult segment hMem
  refine ⟨?_, hBoth.1⟩
  rcases hBoth.2 with hNone | hWalk
  · cases hNone
  · rcases List.mem_append.mp hWalk with hOld | hNew
    · exact
        (path.names segment
          (List.mem_of_mem_dropLast hOld)).slashless
    · exact slashless_of_mem_splitOn hNew

/- The path that a relative text leads to. -/
def follow
    (path : NormalPath marks)
    (relative : List α) : Option (NormalPath marks) :=
  match hResult :
      normalizeWalk (moveOf marks) (path.walk relative) with
  | none => none
  | some result =>
      some ⟨result, names_of_normalizeWalk hResult⟩

omit [DecidableEq β] in
theorem follow_eq_none_iff
    (path : NormalPath marks)
    (relative : List α) :
    path.follow relative = none ↔
      Climbs (moveOf marks) (path.walk relative) := by
  rw [← normalizeWalk_eq_none_iff]
  unfold follow
  split
  · simpa using by assumption
  · next result hResult => simp [hResult]

omit [DecidableEq β] in
theorem normalizeWalk_of_follow
    {path result : NormalPath marks}
    {relative : List α}
    (hFollow : path.follow relative = some result) :
    normalizeWalk (moveOf marks) (path.walk relative) =
      some result.segments := by
  unfold follow at hFollow
  split at hFollow
  · cases hFollow
  · next segments hResult =>
    cases hFollow
    exact hResult

end NormalPath

/- One more name behind a slash. -/
omit [DecidableEq α] [DecidableEq β] in
theorem intercalate_snoc
    (slash : α)
    {segments : List (List α)}
    (hSegments : segments ≠ [])
    (segment : List α) :
    [slash].intercalate (segments ++ [segment]) =
      [slash].intercalate segments ++ slash :: segment := by
  induction segments with
  | nil => exact absurd rfl hSegments
  | cons first others ih =>
    cases others with
    | nil => simp
    | cons second others =>
      have hRest := ih (List.cons_ne_nil _ _)
      simp only [List.cons_append] at hRest ⊢
      rw [List.intercalate_cons_cons, hRest,
        List.intercalate_cons_cons]
      simp only [List.append_assoc]

/- More letters behind the last name. -/
omit [DecidableEq α] [DecidableEq β] in
theorem intercalate_extend
    (slash : α)
    (segments : List (List α))
    (segment ending : List α) :
    [slash].intercalate (segments ++ [segment ++ ending]) =
      [slash].intercalate (segments ++ [segment])
        ++ ending := by
  by_cases hSegments : segments = []
  · subst hSegments
    simp
  · rw [intercalate_snoc slash hSegments,
      intercalate_snoc slash hSegments, List.append_assoc,
      List.cons_append]

----------
-- Encodings
----------

/- A letter whose code is one letter that nothing shares. -/
def Plain (encode : α → List β) (letter : α) : Prop :=
  ∃ code, encode letter = [code] ∧
    ∀ other, code ∈ encode other → other = letter

/- An encoding that keeps the letters of paths apart. -/
structure Respects
    (marks : Marks α)
    (codes : Marks β)
    (encode : α → List β) : Prop where
  nonempty : ∀ letter, encode letter ≠ []
  slash : encode marks.slash = [codes.slash]
  dot : encode marks.dot = [codes.dot]
  onlySlash :
    ∀ letter, codes.slash ∈ encode letter →
      letter = marks.slash
  onlyDot :
    ∀ letter, codes.dot ∈ encode letter → letter = marks.dot

section Encoded

variable {marks : Marks α} {codes : Marks β}
  {encode : α → List β}

omit [DecidableEq α] [DecidableEq β] in
theorem flatMap_eq_dots
    (hEncode : Respects marks codes encode)
    (count : Nat)
    (segment : List α) :
    segment.flatMap encode = List.replicate count codes.dot ↔
      segment = List.replicate count marks.dot := by
  induction count generalizing segment with
  | zero =>
    cases segment with
    | nil => simp
    | cons letter rest =>
      simp [hEncode.nonempty letter]
  | succ count ih =>
    rw [List.replicate_succ, List.replicate_succ]
    cases segment with
    | nil => simp
    | cons letter rest =>
      rw [List.flatMap_cons, List.cons.injEq]
      constructor
      · intro hSame
        have hLetter : letter = marks.dot := by
          cases hCode : encode letter with
          | nil => exact absurd hCode (hEncode.nonempty _)
          | cons code others =>
            rw [hCode, List.cons_append, List.cons.injEq] at hSame
            apply hEncode.onlyDot
            rw [hCode, hSame.1]
            exact List.mem_cons_self
        rw [hLetter, hEncode.dot, List.singleton_append,
          List.cons.injEq] at hSame
        exact ⟨hLetter, (ih rest).mp hSame.2⟩
      · rintro ⟨rfl, hRest⟩
        rw [hEncode.dot, (ih rest).mpr hRest]
        rfl

theorem moveOf_encode
    (hEncode : Respects marks codes encode)
    (segment : List α) :
    moveOf codes (segment.flatMap encode) =
      moveOf marks segment := by
  have hNone := flatMap_eq_dots hEncode 0 segment
  have hOne := flatMap_eq_dots hEncode 1 segment
  have hTwo := flatMap_eq_dots hEncode 2 segment
  simp only [List.replicate_succ,
    List.replicate_zero] at hNone hOne hTwo
  unfold moveOf
  simp only [hNone, hOne, hTwo]

omit [DecidableEq α] in
theorem splitOn_append_slashless
    {slash : β}
    {front : List β}
    (hFront : slash ∉ front)
    (rest : List β) :
    (front ++ rest).splitOn slash =
      (rest.splitOn slash).modifyHead (front ++ ·) := by
  induction front with
  | nil =>
    cases hSplit : rest.splitOn slash with
    | nil => exact absurd hSplit (List.splitOn_ne_nil _ _)
    | cons first others => simp [hSplit]
  | cons letter front ih =>
    rw [List.mem_cons, not_or] at hFront
    rw [List.cons_append,
      List.splitOn_cons_eq_if_modifyHead, ih hFront.2]
    simp only [beq_iff_eq, Ne.symm hFront.1, if_false]
    cases hSplit : rest.splitOn slash with
    | nil => exact absurd hSplit (List.splitOn_ne_nil _ _)
    | cons first others => simp

theorem splitOn_encode
    (hEncode : Respects marks codes encode)
    (text : List α) :
    segmentsOf codes (text.flatMap encode) =
      (segmentsOf marks text).map
        (List.flatMap encode) := by
  unfold segmentsOf
  induction text with
  | nil => simp
  | cons letter rest ih =>
    rw [List.flatMap_cons, List.splitOn_cons_eq_if_modifyHead]
    by_cases hSlash : letter = marks.slash
    · rw [hSlash, hEncode.slash, List.singleton_append,
        List.splitOn_cons_eq_if_modifyHead, ih]
      simp
    · have hCode : codes.slash ∉ encode letter :=
        fun hMem => hSlash (hEncode.onlySlash letter hMem)
      rw [splitOn_append_slashless hCode, ih]
      simp only [beq_iff_eq, hSlash, if_false]
      cases hSplit : rest.splitOn marks.slash with
      | nil => exact absurd hSplit (List.splitOn_ne_nil _ _)
      | cons first others => simp

omit [DecidableEq α] [DecidableEq β] in
theorem intercalate_encode
    (hEncode : Respects marks codes encode)
    (segments : List (List α)) :
    ([marks.slash].intercalate segments).flatMap encode =
      [codes.slash].intercalate
        (segments.map (List.flatMap encode)) := by
  induction segments with
  | nil => rfl
  | cons segment rest ih =>
    cases rest with
    | nil => simp
    | cons next others =>
      rw [List.map_cons] at ih
      rw [List.intercalate_cons_cons,
        List.flatMap_append, List.flatMap_append, ih,
        List.map_cons, List.map_cons,
        List.intercalate_cons_cons]
      simp [hEncode.slash]

/- Walking and encoding commute. -/
theorem normalizeWalk_encode
    (hEncode : Respects marks codes encode)
    (segments : List (List α)) :
    normalizeWalk (moveOf codes)
        (segments.map (List.flatMap encode))
      = (normalizeWalk (moveOf marks) segments).map
        (List.map (List.flatMap encode)) :=
  normalizeWalk_map (moveOf_encode hEncode) segments

omit [DecidableEq α] [DecidableEq β] in
/- A text of plain letters ends the same texts as its code. -/
theorem suffix_encode_iff
    (hNonempty : ∀ letter, encode letter ≠ [])
    {ending : List α}
    (hPlain : ∀ letter ∈ ending, Plain encode letter)
    (text : List α) :
    ending.flatMap encode <:+ text.flatMap encode ↔
      ending <:+ text := by
  constructor
  · intro hSuffix
    induction ending using List.reverseRecOn
      generalizing text with
    | nil => exact List.nil_suffix
    | append_singleton front letter ih =>
      rcases hPlain letter (by simp) with
        ⟨code, hCode, hOnly⟩
      rcases hSuffix with ⟨before, hSame⟩
      rw [List.flatMap_append, List.flatMap_cons,
        List.flatMap_nil, List.append_nil, hCode,
        ← List.append_assoc] at hSame
      rcases List.eq_nil_or_concat' text with
        rfl | ⟨init, last, rfl⟩
      · simp at hSame
      · rw [List.flatMap_append, List.flatMap_cons,
          List.flatMap_nil, List.append_nil] at hSame
        have hLast : last = letter := by
          rcases List.eq_nil_or_concat' (encode last) with
            hNil | ⟨others, end_, hEnd⟩
          · exact absurd hNil (hNonempty last)
          · rw [hEnd, ← List.append_assoc] at hSame
            have hEq := List.append_inj_right' hSame rfl
            apply hOnly
            rw [hEnd]
            simp only [List.cons.injEq, and_true] at hEq
            rw [hEq]
            simp
        subst hLast
        rw [hCode] at hSame
        have hFront := List.append_inj_left' hSame rfl
        have hRest :=
          ih (fun item hItem =>
              hPlain item (List.mem_append_left _ hItem))
            init ⟨before, hFront⟩
        rcases hRest with ⟨start, rfl⟩
        exact ⟨start, by simp⟩
  · rintro ⟨before, rfl⟩
    exact ⟨before.flatMap encode, by simp⟩

end Encoded

end Texts

end PathSegments

end ArktsServer
