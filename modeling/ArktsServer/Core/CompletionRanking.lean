import ArktsServer.Semantic.WorkerProtocol
import Mathlib.Data.List.Sublists

/-
  How well a completion candidate matches the typed prefix:
  the candidate begins with it, the prefix names the words of
  the candidate, or it only is a subsequence.

  The camel search takes the first place for each letter and
  never comes back, so it is exact for the leftmost choice;
  a choice that begins further right can be lost.

  Key definitions include:
    * `completionMatchQuality`
    * `CamelChoice`, `LeftmostChoice`

  Correctness is proven by:
    * `matchesCamelFrom_iff`
    * `leftmost_isChoice`
    * `completionMatchQuality_spec`
    * `completionMatchQuality_typed`
-/

----------
-- Ranking
----------

namespace ArktsServer

namespace CompletionRanking

open Semantic (CodeUnits)

inductive CompletionMatchQuality where
| prefixMatch
| camelMatch
| subsequenceMatch
deriving DecidableEq

/- `toLowerCase` of an ASCII string; other letters stay. -/
def toLowerCase (text : CodeUnits) : CodeUnits :=
  text.map fun unit =>
    if 0x41 ≤ unit ∧ unit ≤ 0x5a then unit + 0x20 else unit

def isSeparator (unit : UInt16) : Bool :=
  unit = 0x5f || unit = 0x2d || unit = 0x2e || unit = 0x2f

def isLower (unit : UInt16) : Bool :=
  0x61 ≤ unit && unit ≤ 0x7a

def isUpper (unit : UInt16) : Bool :=
  0x41 ≤ unit && unit ≤ 0x5a

def isDigit (unit : UInt16) : Bool :=
  0x30 ≤ unit && unit ≤ 0x39

/- The tests on the unit at an index, false past the end. -/
def unitIs
    (test : UInt16 → Bool)
    (candidate : CodeUnits)
    (index : Nat) :
    Bool :=
  (candidate[index]?.map test).getD false

def isCompletionWordBoundary
    (candidate : CodeUnits)
    (index : Nat) :
    Bool :=
  if index = 0 then
    true
  else if unitIs isSeparator candidate (index - 1) then
    true
  else if unitIs isDigit candidate (index - 1)
      && (unitIs isLower candidate index
        || unitIs isUpper candidate index) then
    true
  else if !unitIs isUpper candidate index then
    false
  else if unitIs isLower candidate (index - 1) then
    true
  else
    unitIs isUpper candidate (index - 1)
      && unitIs isLower candidate (index + 1)

/- The first index of a range that is accepted. -/
def findFrom
    (accepts : Nat → Bool) :
    Nat → Nat → Option Nat
| _, 0 => none
| index, count + 1 =>
    if accepts index then
      some index
    else
      findFrom accepts (index + 1) count

/- Whether a letter can be matched at an index. -/
def acceptsAt
    (candidate : CodeUnits)
    (unit : UInt16)
    (previousMatch : Option Nat)
    (index : Nat) :
    Bool :=
  (toLowerCase candidate)[index]? = some unit
    && (isCompletionWordBoundary candidate index
      || previousMatch.map (fun previous => previous + 1)
        = some index)

def searchStart (previousMatch : Option Nat) : Nat :=
  (previousMatch.map fun previous => previous + 1).getD 0

/- The loop over the prefix, from the last match on. -/
def matchesCamelFrom
    (candidate : CodeUnits) :
    CodeUnits → Option Nat → Bool
| [], _ => true
| unit :: units, previousMatch =>
    match
      findFrom (acceptsAt candidate unit previousMatch)
        (searchStart previousMatch)
        (candidate.length - searchStart previousMatch)
    with
    | none => false
    | some found => matchesCamelFrom candidate units (some found)

def matchesCamelCompletion
    (candidate normalizedPrefix : CodeUnits) :
    Bool :=
  matchesCamelFrom candidate normalizedPrefix none

/- The loop over the candidate that uses up the prefix. -/
def isSubsequence : CodeUnits → CodeUnits → Bool
| [], _ => true
| _, [] => false
| unit :: units, found :: rest =>
    if found = unit then
      isSubsequence units rest
    else
      isSubsequence (unit :: units) rest

def completionMatchQuality
    (candidate normalizedPrefix : CodeUnits) :
    Option CompletionMatchQuality :=
  if normalizedPrefix.length = 0 then
    some .prefixMatch
  else if normalizedPrefix.isPrefixOf (toLowerCase candidate) then
    some .prefixMatch
  else if isSubsequence normalizedPrefix (toLowerCase candidate) then
    if matchesCamelCompletion candidate normalizedPrefix then
      some .camelMatch
    else
      some .subsequenceMatch
  else
    none

----------
-- Choices
----------

/-
  A strictly increasing choice of positions that spells the
  letters behind the previous one.  The first is a word
  boundary; each later one is, or directly follows.
-/
inductive CamelChoice (candidate : CodeUnits) :
    Option Nat → CodeUnits → List Nat → Prop
| nil (previous : Option Nat) :
    CamelChoice candidate previous [] []
| cons
    {previous : Option Nat}
    {unit : UInt16}
    {units : CodeUnits}
    {index : Nat}
    {positions : List Nat}
    (hAfter : searchStart previous ≤ index)
    (hLetter : (toLowerCase candidate)[index]? = some unit)
    (hPlace :
      isCompletionWordBoundary candidate index = true ∨
        previous.map (fun last => last + 1) = some index)
    (hRest :
      CamelChoice candidate (some index) units positions) :
    CamelChoice candidate previous (unit :: units)
      (index :: positions)

/- The choice in which each position is the first one. -/
inductive LeftmostChoice (candidate : CodeUnits) :
    Option Nat → CodeUnits → List Nat → Prop
| nil (previous : Option Nat) :
    LeftmostChoice candidate previous [] []
| cons
    {previous : Option Nat}
    {unit : UInt16}
    {units : CodeUnits}
    {index : Nat}
    {positions : List Nat}
    (hAfter : searchStart previous ≤ index)
    (hLetter : (toLowerCase candidate)[index]? = some unit)
    (hPlace :
      isCompletionWordBoundary candidate index = true ∨
        previous.map (fun last => last + 1) = some index)
    (hFirst :
      ∀ other,
        searchStart previous ≤ other →
        other < index →
          acceptsAt candidate unit previous other = false)
    (hRest :
      LeftmostChoice candidate (some index) units positions) :
    LeftmostChoice candidate previous (unit :: units)
      (index :: positions)

variable {candidate : CodeUnits}
variable {previous : Option Nat}

theorem leftmost_isChoice
    {units : CodeUnits}
    {positions : List Nat}
    (hLeftmost :
      LeftmostChoice candidate previous units positions) :
    CamelChoice candidate previous units positions := by
  induction hLeftmost with
  | nil previous => exact .nil previous
  | cons hAfter hLetter hPlace _ _ ih =>
    exact .cons hAfter hLetter hPlace ih

theorem acceptsAt_iff
    {unit : UInt16}
    {index : Nat} :
    acceptsAt candidate unit previous index = true ↔
      (toLowerCase candidate)[index]? = some unit ∧
        (isCompletionWordBoundary candidate index = true ∨
          previous.map (fun last => last + 1)
            = some index) := by
  unfold acceptsAt
  rw [Bool.and_eq_true, Bool.or_eq_true, decide_eq_true_iff,
    decide_eq_true_iff]

theorem findFrom_eq_some_iff
    {accepts : Nat → Bool}
    {start count found : Nat} :
    findFrom accepts start count = some found ↔
      start ≤ found ∧ found < start + count ∧
        accepts found = true ∧
        ∀ other,
          start ≤ other → other < found →
            accepts other = false := by
  induction count generalizing start with
  | zero =>
    constructor
    · intro hFound
      cases hFound
    · rintro ⟨hStart, hEnd, _⟩
      omega
  | succ count ih =>
    unfold findFrom
    split
    · rename_i hAccepts
      constructor
      · intro hFound
        injection hFound with hSame
        subst hSame
        exact
          ⟨Nat.le_refl _, by omega, hAccepts,
            fun other hAfter hBefore =>
              absurd hBefore (Nat.not_lt.mpr hAfter)⟩
      · rintro ⟨hStart, _, _, hFirst⟩
        rcases Nat.lt_or_eq_of_le hStart with
          hLater | hSame
        · rw [hFirst start (Nat.le_refl _) hLater] at hAccepts
          cases hAccepts
        · rw [hSame]
    · rename_i hRefuses
      rw [ih]
      constructor
      · rintro ⟨hStart, hEnd, hAccepts, hFirst⟩
        refine
          ⟨by omega, by omega, hAccepts,
            fun other hAfter hBefore => ?_⟩
        rcases Nat.lt_or_eq_of_le hAfter with
          hLater | hSame
        · exact hFirst other hLater hBefore
        · rw [← hSame]
          exact Bool.eq_false_iff.mpr hRefuses
      · rintro ⟨hStart, hEnd, hAccepts, hFirst⟩
        have hNext : start ≠ found := by
          rintro rfl
          exact hRefuses hAccepts
        exact
          ⟨by omega, by omega, hAccepts,
            fun other hAfter hBefore =>
              hFirst other (by omega) hBefore⟩

theorem length_toLowerCase (text : CodeUnits) :
    (toLowerCase text).length = text.length :=
  List.length_map _

/- The greedy search finds exactly the leftmost choice. -/
theorem matchesCamelFrom_iff
    {units : CodeUnits} :
    matchesCamelFrom candidate units previous = true ↔
      ∃ positions,
        LeftmostChoice candidate previous units positions := by
  induction units generalizing previous with
  | nil => exact ⟨fun _ => ⟨[], .nil _⟩, fun _ => rfl⟩
  | cons unit units ih =>
    unfold matchesCamelFrom
    split
    · rename_i hNone
      refine iff_of_false Bool.false_ne_true ?_
      rintro ⟨positions, hLeftmost⟩
      cases hLeftmost with
      | cons hAfter hLetter hPlace hFirst _ =>
        rename_i index positions hRest
        have hInside := (List.getElem?_eq_some_iff.mp hLetter).1
        rw [length_toLowerCase] at hInside
        have hEnd :
            index <
            searchStart previous
              + (candidate.length
                - searchStart previous) := by
          rw [Nat.add_sub_cancel' (by omega)]
          exact hInside
        rw [findFrom_eq_some_iff.mpr
          ⟨hAfter, hEnd, acceptsAt_iff.mpr
            ⟨hLetter, hPlace⟩, hFirst⟩] at hNone
        cases hNone
    · rename_i found hFound
      rcases findFrom_eq_some_iff.mp hFound with
        ⟨hAfter, _, hAccepts, hFirst⟩
      rcases acceptsAt_iff.mp hAccepts with
        ⟨hLetter, hPlace⟩
      rw [ih]
      constructor
      · rintro ⟨positions, hRest⟩
        exact
          ⟨found :: positions,
            .cons hAfter hLetter hPlace hFirst hRest⟩
      · rintro ⟨positions, hLeftmost⟩
        cases hLeftmost with
        | cons hOther hLetter' hPlace' hFirst' hRest =>
          rename_i index positions
          have hOtherAccepts :=
            acceptsAt_iff.mpr ⟨hLetter', hPlace'⟩
          have hSame : index = found := by
            rcases Nat.lt_trichotomy index found with
              hLess | hSame | hMore
            · rw [hFirst index hOther hLess] at hOtherAccepts
              cases hOtherAccepts
            · exact hSame
            · rw [hFirst' found hAfter hMore] at hAccepts
              cases hAccepts
          subst hSame
          exact ⟨positions, hRest⟩

theorem isSubsequence_iff
    {units text : CodeUnits} :
    isSubsequence units text = true ↔ units.Sublist text := by
  induction text generalizing units with
  | nil =>
    cases units with
    | nil => exact ⟨fun _ => List.Sublist.slnil, fun _ => rfl⟩
    | cons unit units =>
      refine iff_of_false Bool.false_ne_true ?_
      intro hSub
      cases hSub
  | cons found rest ih =>
    cases units with
    | nil => exact ⟨fun _ => List.nil_sublist _, fun _ => rfl⟩
    | cons unit units =>
      unfold isSubsequence
      split
      · rename_i hSame
        subst hSame
        rw [ih]
        exact List.cons_sublist_cons.symm
      · rename_i hOther
        rw [ih]
        constructor
        · exact fun hSub => hSub.cons found
        · intro hSub
          cases hSub with
          | cons _ hRest => exact hRest
          | cons_cons _ _ => exact absurd rfl hOther

theorem CamelChoice.sublist
    {units : CodeUnits}
    {positions : List Nat}
    (hChoice :
      CamelChoice candidate previous units positions) :
    units.Sublist
      ((toLowerCase candidate).drop (searchStart previous)) := by
  induction hChoice with
  | nil previous => exact List.nil_sublist _
  | @cons previous unit units index positions hAfter hLetter
      _ _ ih =>
      rcases List.getElem?_eq_some_iff.mp hLetter with
        ⟨hInside, hUnit⟩
      have hHere :
          (toLowerCase candidate).drop index =
            unit :: (toLowerCase candidate).drop (index + 1) := by
        rw [List.drop_eq_getElem_cons hInside, hUnit]
      have hRest :
          (unit :: units).Sublist
            ((toLowerCase candidate).drop index) := by
        rw [hHere]
        exact List.cons_sublist_cons.mpr ih
      exact hRest.trans (List.drop_sublist_drop_left _ hAfter)

/-
  The quality of a match: the camel search is exact for the
  leftmost choice, which is a camel choice.
-/
theorem completionMatchQuality_spec
    {letters : CodeUnits}
    (hLetters : letters ≠ []) :
    (completionMatchQuality candidate letters
        = some .prefixMatch ↔
      letters <+: toLowerCase candidate) ∧
    (completionMatchQuality candidate letters
        = some .camelMatch ↔
      ¬ letters <+: toLowerCase candidate ∧
        ∃ positions,
          LeftmostChoice candidate none letters positions ∧
            CamelChoice candidate none letters positions) ∧
    (completionMatchQuality candidate letters
        = some .subsequenceMatch ↔
      ¬ letters <+: toLowerCase candidate ∧
        (¬ ∃ positions,
          LeftmostChoice candidate none letters positions) ∧
        letters.Sublist (toLowerCase candidate)) ∧
    (completionMatchQuality candidate letters = none ↔
      ¬ letters.Sublist (toLowerCase candidate)) := by
  have hLength : ¬ letters.length = 0 := fun hNone =>
    hLetters (List.length_eq_zero_iff.mp hNone)
  have hCamel :
      matchesCamelCompletion candidate letters = true ↔
        ∃ positions,
          LeftmostChoice candidate none letters positions :=
    matchesCamelFrom_iff
  have hInside :
      ∀ positions,
        LeftmostChoice candidate none letters positions →
          letters.Sublist (toLowerCase candidate) :=
    fun positions hLeftmost =>
      (leftmost_isChoice hLeftmost).sublist
  unfold completionMatchQuality
  rw [if_neg hLength]
  by_cases hStarts : letters <+: toLowerCase candidate
  · have hSub := hStarts.sublist
    rw [if_pos (List.isPrefixOf_iff_prefix.mpr hStarts)]
    simp [hStarts, hSub]
  · have hNotStarts :
        ¬ letters.isPrefixOf (toLowerCase candidate) = true :=
      fun hPrefix =>
        hStarts (List.isPrefixOf_iff_prefix.mp hPrefix)
    rw [if_neg hNotStarts]
    by_cases hSub : letters.Sublist (toLowerCase candidate)
    · rw [if_pos (isSubsequence_iff.mpr hSub)]
      by_cases hFound :
          matchesCamelCompletion candidate letters = true
      · rw [if_pos hFound]
        rcases hCamel.mp hFound with ⟨positions, hLeftmost⟩
        have hChoice :
            ∃ positions,
              LeftmostChoice candidate none letters positions ∧
                CamelChoice candidate none letters positions :=
          ⟨positions, hLeftmost, leftmost_isChoice hLeftmost⟩
        simp [hStarts, hSub, hChoice, hCamel.mp hFound]
      · rw [if_neg hFound]
        have hNone := mt hCamel.mpr hFound
        have hNoChoice :
            ¬ ∃ positions,
              LeftmostChoice candidate none letters positions ∧
                CamelChoice candidate none letters positions :=
          fun ⟨positions, hLeftmost, _⟩ =>
            hNone ⟨positions, hLeftmost⟩
        simp [hStarts, hSub, hNone, hNoChoice]
    · rw [if_neg (mt isSubsequence_iff.mp hSub)]
      have hNoChoice :
          ¬ ∃ positions,
            LeftmostChoice candidate none letters positions ∧
              CamelChoice candidate none letters positions :=
        fun ⟨positions, hLeftmost, _⟩ =>
          hSub (hInside positions hLeftmost)
      simp [hStarts, hSub, hNoChoice]

----------
-- Runs
----------

/- The letters `fo` and `fb` in `fooBar`. -/
theorem completionMatchQuality_start :
    let candidate : CodeUnits :=
      [0x66, 0x6f, 0x6f, 0x42, 0x61, 0x72]
    completionMatchQuality candidate [0x66, 0x6f]
        = some .prefixMatch ∧
      completionMatchQuality candidate [0x66, 0x62]
        = some .camelMatch := by
  intro candidate
  constructor
  · exact
      (completionMatchQuality_spec (by decide)).1.mpr
        ⟨[0x6f, 0x62, 0x61, 0x72], by decide⟩
  · have hLeftmost :
        LeftmostChoice candidate none [0x66, 0x62] [0, 3] :=
      .cons (by decide) (by decide) (by decide) (by decide)
        (.cons (by decide) (by decide) (by decide)
          (by decide) (.nil _))
    exact
      (completionMatchQuality_spec (by decide)).2.1.mpr
        ⟨by decide, [0, 3], hLeftmost,
          leftmost_isChoice hLeftmost⟩

/-
  The letters `abc` in `abAbc`: the first places for `a` and
  `b` leave no place for `c`.
-/
theorem completionMatchQuality_lostMatch :
    completionMatchQuality
        [0x61, 0x62, 0x41, 0x62, 0x63] [0x61, 0x62, 0x63]
      = some .subsequenceMatch ∧
      CamelChoice [0x61, 0x62, 0x41, 0x62, 0x63] none
        [0x61, 0x62, 0x63] [2, 3, 4] := by
  refine ⟨by decide, ?_⟩
  exact
    .cons (by decide) (by decide) (by decide)
      (.cons (by decide) (by decide) (by decide)
        (.cons (by decide) (by decide) (by decide) (.nil _)))

----------
-- Further Typing
----------

/- The number of a quality; no match is worse than any. -/
def rankOf : Option CompletionMatchQuality → Nat
| some .prefixMatch => 0
| some .camelMatch => 1
| some .subsequenceMatch => 2
| none => 3

theorem matchesCamelFrom_append
    {candidate more : CodeUnits}
    (typed : CodeUnits)
    {previous : Option Nat}
    (hMatches :
      matchesCamelFrom candidate (typed ++ more) previous
        = true) :
    matchesCamelFrom candidate typed previous = true := by
  induction typed generalizing previous with
  | nil => rfl
  | cons unit typed ih =>
    rw [List.cons_append] at hMatches
    unfold matchesCamelFrom at hMatches ⊢
    split
    · rename_i hNone
      rw [hNone] at hMatches
      exact hMatches
    · rename_i found hFound
      rw [hFound] at hMatches
      exact ih hMatches

/- Typing more never makes a match better. -/
theorem completionMatchQuality_typed
    (candidate typed more : CodeUnits) :
    rankOf (completionMatchQuality candidate typed) ≤
      rankOf
        (completionMatchQuality candidate (typed ++ more)) := by
  have hPrefix :
      (typed ++ more).isPrefixOf (toLowerCase candidate) =
          true →
        typed.isPrefixOf (toLowerCase candidate) = true := by
    rw [List.isPrefixOf_iff_prefix, List.isPrefixOf_iff_prefix]
    exact (List.prefix_append _ _).trans
  have hSubsequence :
      isSubsequence (typed ++ more) (toLowerCase candidate) =
          true →
        isSubsequence typed (toLowerCase candidate) = true := by
    rw [isSubsequence_iff, isSubsequence_iff]
    exact (List.sublist_append_left _ _).trans
  have hCamel :
      matchesCamelCompletion candidate (typed ++ more) =
          true →
        matchesCamelCompletion candidate typed = true :=
    matchesCamelFrom_append typed
  unfold completionMatchQuality
  by_cases hEmpty : typed.length = 0
  · rw [if_pos hEmpty]
    exact Nat.zero_le _
  · have hMore : (typed ++ more).length ≠ 0 := by
      rw [List.length_append]
      omega
    rw [if_neg hEmpty, if_neg hMore]
    split_ifs <;> simp_all [rankOf]

end CompletionRanking

end ArktsServer
