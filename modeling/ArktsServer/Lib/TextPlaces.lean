import Mathlib.Data.List.Basic
import Mathlib.Data.List.Induction
import Mathlib.Tactic.Common

/-
  Places in a text over any alphabet: the line of a place is
  the number of newlines before it, and its column is how
  far it is behind the last of them.  Later places compare
  higher, and bisecting the starts of the lines finds the
  line of a place.

  Main declarations:
    * `TextPlaces.Cut`, `TextPlaces.startsFrom`
    * `TextPlaces.bisect`, `TextPlaces.bisect_eq`
    * `TextPlaces.bisect_starts`
    * `TextPlaces.later_of_append`
-/

namespace ArktsServer

namespace TextPlaces

section Cuts

variable {α : Type*} [DecidableEq α] {newline : α}

----------
-- Cuts
----------

/- A beginning of a text, cut behind its last newline. -/
structure Cut
    (newline : α)
    (front earlier line : List α) : Prop where
  split : front = earlier ++ line
  line : newline ∉ line
  earlier : earlier = [] ∨ ∃ rest, earlier = rest ++ [newline]

theorem exists_cut
    (newline : α)
    (front : List α) :
    ∃ earlier line, Cut newline front earlier line := by
  induction front using List.reverseRecOn with
  | nil => exact ⟨[], [], rfl, List.not_mem_nil, Or.inl rfl⟩
  | append_singleton front last ih =>
    rcases ih with ⟨earlier, line, hSplit, hLine, hEarlier⟩
    by_cases hLast : last = newline
    · refine
        ⟨front ++ [last], [], by simp, List.not_mem_nil, ?_⟩
      exact Or.inr ⟨front, by rw [hLast]⟩
    · refine ⟨earlier, line ++ [last], ?_, ?_, hEarlier⟩
      · rw [hSplit, List.append_assoc]
      · rw [List.mem_append, List.mem_singleton]
        rintro (hOld | hNew)
        · exact hLine hOld
        · exact hLast hNew.symm

variable {front earlier line : List α}

/- The newlines of a beginning stand before its last line. -/
theorem Cut.count_eq
    (hCut : Cut newline front earlier line) :
    front.count newline = earlier.count newline := by
  rw [hCut.split, List.count_append,
    List.count_eq_zero.mpr hCut.line, Nat.add_zero]

omit [DecidableEq α] in
/- More text without a newline makes the line longer. -/
theorem Cut.extend
    (hCut : Cut newline front earlier line)
    {text : List α}
    (hText : newline ∉ text) :
    Cut newline (front ++ text) earlier (line ++ text) := by
  refine ⟨?_, ?_, hCut.earlier⟩
  · rw [hCut.split, List.append_assoc]
  · rw [List.mem_append]
    rintro (hOld | hNew)
    · exact hCut.line hOld
    · exact hText hNew

omit [DecidableEq α] in
/- Nothing with a newline at its end is part of a line. -/
theorem more_eq_nil
    {earlier longer more line rest : List α}
    (hLonger : longer = earlier ++ more)
    (hLine : line = more ++ rest)
    (hNewline : newline ∉ line)
    (hEnd :
      longer = [] ∨ ∃ before, longer = before ++ [newline]) :
    more = [] := by
  rcases hEnd with hNil | ⟨before, hBefore⟩
  · rw [hNil] at hLonger
    exact (List.append_eq_nil_iff.mp hLonger.symm).2
  · rcases List.eq_nil_or_concat' more with
      hNil | ⟨init, last, rfl⟩
    · exact hNil
    · rw [hBefore, ← List.append_assoc] at hLonger
      have hLast := List.append_inj_right' hLonger rfl
      refine absurd ?_ hNewline
      rw [hLine, ← hLast]
      simp

omit [DecidableEq α] in
/- A beginning has one last line. -/
theorem Cut.line_eq
    {front earlier line earlier' line' : List α}
    (hFirst : Cut newline front earlier line)
    (hSecond : Cut newline front earlier' line') :
    line = line' := by
  have hSplit := hFirst.split.symm.trans hSecond.split
  rcases List.append_eq_append_iff.mp hSplit with
    ⟨more, hEarlier, hLine⟩ | ⟨more, hEarlier, hLine⟩
  · have hNil :=
      more_eq_nil hEarlier hLine hFirst.line hSecond.earlier
    rw [hLine, hNil, List.nil_append]
  · have hNil :=
      more_eq_nil hEarlier hLine hSecond.line hFirst.earlier
    rw [hLine, hNil, List.nil_append]

/- A place is told by a line and a column. -/
def Later (first second : Nat × Nat) : Prop :=
  first.1 < second.1 ∨
    (first.1 = second.1 ∧ first.2 < second.2)

theorem Later.irrefl (place : Nat × Nat) :
    ¬ Later place place := by
  rintro (hLine | ⟨_, hColumn⟩)
  · exact Nat.lt_irrefl _ hLine
  · exact Nat.lt_irrefl _ hColumn

/- Behind more text, a place is later. -/
theorem later_of_append
    {front text earlier line earlier' line' : List α}
    (hText : text ≠ [])
    (hFirst : Cut newline front earlier line)
    (hSecond : Cut newline (front ++ text) earlier' line') :
    Later (front.count newline, line.length)
      ((front ++ text).count newline, line'.length) := by
  rw [List.count_append]
  by_cases hNewline : newline ∈ text
  · have hMore := List.count_pos_iff.mpr hNewline
    exact Or.inl (by dsimp only; omega)
  · have hNone := List.count_eq_zero.mpr hNewline
    have hSame : line' = line ++ text :=
      hSecond.line_eq (hFirst.extend hNewline)
    refine Or.inr ⟨by dsimp only; omega, ?_⟩
    dsimp only
    rw [hSame, List.length_append]
    have hPositive := List.length_pos_iff.mpr hText
    omega

----------
-- Starts
----------

/- The places behind the newlines. -/
def startsFrom (newline : α) : Nat → List α → List Nat
| _, [] => []
| index, letter :: rest =>
    if letter = newline then
      (index + 1) :: startsFrom newline (index + 1) rest
    else
      startsFrom newline (index + 1) rest

theorem startsFrom_append
    (index : Nat)
    (left right : List α) :
    startsFrom newline index (left ++ right) =
      startsFrom newline index left
        ++ startsFrom newline (index + left.length) right := by
  induction left generalizing index with
  | nil => simp [startsFrom]
  | cons letter rest ih =>
    rw [List.cons_append, startsFrom, startsFrom, ih,
      List.length_cons,
      show index + 1 + rest.length
        = index + (rest.length + 1) by omega]
    split
    · rfl
    · rfl

theorem startsFrom_bounds
    {index start : Nat}
    {text : List α}
    (hStart : start ∈ startsFrom newline index text) :
    index < start ∧ start ≤ index + text.length := by
  induction text generalizing index with
  | nil => cases hStart
  | cons letter rest ih =>
    rw [startsFrom] at hStart
    rw [List.length_cons]
    split at hStart
    · rcases List.mem_cons.mp hStart with rfl | hLater
      · omega
      · have hRest := ih hLater
        omega
    · have hRest := ih hStart
      omega

theorem length_startsFrom
    (index : Nat)
    (text : List α) :
    (startsFrom newline index text).length =
      text.count newline := by
  induction text generalizing index with
  | nil => rfl
  | cons letter rest ih =>
    rw [startsFrom]
    split
    · next hLetter =>
      rw [List.length_cons, ih, hLetter, List.count_cons_self]
    · next hLetter => rw [ih, List.count_cons_of_ne hLetter]

theorem startsFrom_sorted
    (index : Nat)
    (text : List α) :
    (startsFrom newline index text).Pairwise (· < ·) := by
  induction text generalizing index with
  | nil => exact List.Pairwise.nil
  | cons letter rest ih =>
    rw [startsFrom]
    split
    · refine List.pairwise_cons.mpr ⟨?_, ih _⟩
      exact fun start hStart => (startsFrom_bounds hStart).1
    · exact ih _

/- All starts of the lines of a text. -/
def lineStarts (newline : α) (text : List α) : List Nat :=
  0 :: startsFrom newline 0 text

theorem lineStarts_sorted (text : List α) :
    (lineStarts newline text).Pairwise (· < ·) :=
  List.pairwise_cons.mpr
    ⟨fun _ hStart => (startsFrom_bounds hStart).1,
      startsFrom_sorted 0 text⟩

/- The starts up to a place, and the last one of them. -/
theorem lineStarts_cut
    (hCut : Cut newline front earlier line)
    (after : List α) :
    ((lineStarts newline (front ++ after)).takeWhile
        (· ≤ front.length)).length
      = front.count newline + 1 ∧
    (lineStarts newline
        (front ++ after))[front.count newline]?
      = some earlier.length := by
  have hStarts :
      lineStarts newline (front ++ after) =
        lineStarts newline front
          ++ startsFrom newline front.length after := by
    unfold lineStarts
    rw [startsFrom_append, Nat.zero_add, List.cons_append]
  have hFront :
      ∀ start ∈ lineStarts newline front,
        decide (start ≤ front.length) = true := by
    intro start hStart
    rcases List.mem_cons.mp hStart with rfl | hStart
    · exact decide_eq_true (Nat.zero_le _)
    · have hBounds := startsFrom_bounds hStart
      exact decide_eq_true (by omega)
  have hAfter :
      (startsFrom newline front.length after).takeWhile
          (· ≤ front.length)
        = [] := by
    cases hOffsets : startsFrom newline front.length after with
    | nil => rfl
    | cons start starts =>
      have hMem :
          start ∈ startsFrom newline front.length after := by
        rw [hOffsets]
        exact List.mem_cons_self
      have hBounds := startsFrom_bounds hMem
      rw [List.takeWhile_cons_of_neg]
      rw [decide_eq_true_eq]
      omega
  have hLength :
      (lineStarts newline front).length =
        front.count newline + 1 := by
    unfold lineStarts
    rw [List.length_cons, length_startsFrom]
  refine ⟨?_, ?_⟩
  · rw [hStarts, List.takeWhile_append_of_pos hFront, hAfter,
      List.append_nil, hLength]
  · rw [hStarts, List.getElem?_append_left (by omega),
      hCut.count_eq]
    unfold lineStarts
    rcases hCut.earlier with rfl | ⟨rest, rfl⟩
    · rfl
    · have hLast :
          startsFrom newline 0 front =
            startsFrom newline 0 rest
              ++ [(rest ++ [newline]).length] := by
        have hNone :
            startsFrom newline (rest ++ [newline]).length
                line
              = [] := by
          apply List.eq_nil_of_length_eq_zero
          rw [length_startsFrom]
          exact List.count_eq_zero.mpr hCut.line
        rw [hCut.split, startsFrom_append, Nat.zero_add,
          hNone, List.append_nil, startsFrom_append]
        simp [startsFrom]
      have hCount :
          (rest ++ [newline]).count newline =
            (startsFrom newline 0 rest).length + 1 := by
        rw [List.count_append, length_startsFrom]
        simp
      rw [hCount, hLast, List.getElem?_cons_succ,
        List.getElem?_append_right (Nat.le_refl _),
        Nat.sub_self]
      rfl

end Cuts

----------
-- Bisection
----------

/- The loop that halves the starts between two indices. -/
def bisect
    (starts : List Nat)
    (bound low high : Nat) : Nat :=
  if low + 1 < high then
    let middle := (low + high) / 2
    if (starts[middle]?).getD 0 ≤ bound then
      bisect starts bound middle high
    else
      bisect starts bound low middle
  else
    low
termination_by high - low
decreasing_by all_goals omega

/- In a sorted list, the small starts come first. -/
theorem le_bound_iff
    {starts : List Nat}
    (hSorted : starts.Pairwise (· < ·))
    {bound index : Nat}
    (hIndex : index < starts.length) :
    (starts[index]?).getD 0 ≤ bound ↔
      index < (starts.takeWhile (· ≤ bound)).length := by
  induction starts generalizing index with
  | nil => cases hIndex
  | cons start starts ih =>
    rw [List.pairwise_cons] at hSorted
    by_cases hStart : start ≤ bound
    · rw [List.takeWhile_cons_of_pos (by simpa using hStart),
        List.length_cons]
      cases index with
      | zero => simp [hStart]
      | succ index =>
        rw [List.getElem?_cons_succ,
          ih hSorted.2 (by simpa using hIndex)]
        omega
    · rw [List.takeWhile_cons_of_neg (by simpa using hStart)]
      simp only [List.length_nil, Nat.not_lt_zero, iff_false]
      cases index with
      | zero => simpa using hStart
      | succ index =>
        have hRest : index < starts.length := by
          simpa using hIndex
        rw [List.getElem?_cons_succ,
          List.getElem?_eq_getElem hRest]
        have hLater := hSorted.1 _ (List.getElem_mem hRest)
        simp only [Option.getD_some]
        omega

theorem bisect_eq
    {starts : List Nat}
    (hSorted : starts.Pairwise (· < ·))
    {bound low high : Nat}
    (hHigh : high ≤ starts.length)
    (hLow :
      low < (starts.takeWhile (· ≤ bound)).length)
    (hBelow :
      (starts.takeWhile (· ≤ bound)).length ≤ high) :
    bisect starts bound low high + 1 =
      (starts.takeWhile (· ≤ bound)).length := by
  induction low, high using bisect.induct starts bound with
  | case1 low high hMore middle hSmall ih =>
    rw [bisect, if_pos hMore]
    dsimp only
    rw [if_pos hSmall]
    have hMiddle : (low + high) / 2 < starts.length := by
      omega
    exact
      ih hHigh ((le_bound_iff hSorted hMiddle).mp hSmall) hBelow
  | case2 low high hMore middle hLarge ih =>
    rw [bisect, if_pos hMore]
    dsimp only
    rw [if_neg hLarge]
    have hMiddle : (low + high) / 2 < starts.length := by
      omega
    rw [le_bound_iff hSorted hMiddle] at hLarge
    exact ih (by omega) hLow (by omega)
  | case3 low high hDone =>
    rw [bisect, if_neg hDone]
    omega

/- Bisecting finds the line of a place. -/
theorem bisect_starts
    {α : Type*}
    [DecidableEq α]
    {newline : α}
    {front earlier line : List α}
    (hCut : Cut newline front earlier line)
    (after : List α) :
    bisect (lineStarts newline (front ++ after)) front.length
        0 (lineStarts newline (front ++ after)).length
      = front.count newline := by
  have hCount := (lineStarts_cut hCut after).1
  have hBisect :=
    bisect_eq (lineStarts_sorted (front ++ after))
      (Nat.le_refl _)
      (by rw [hCount]; exact Nat.succ_pos _)
      (List.takeWhile_prefix _).length_le
  rw [hCount] at hBisect
  exact Nat.succ.inj hBisect

end TextPlaces

end ArktsServer
