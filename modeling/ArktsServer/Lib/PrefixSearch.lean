import Mathlib.Data.List.Basic
import Mathlib.Data.List.Lex
import Mathlib.Order.Lattice
import Mathlib.Tactic.Common

/-
  Binary search for the first index that is not below, and the
  texts of a sorted list that start with a prefix: they stand
  side by side behind the texts below the prefix.

  Main declarations:
    * `PrefixSearch.firstNot`, `PrefixSearch.firstNot_spec`
    * `PrefixSearch.prefix_of_between`
    * `PrefixSearch.filter_prefix`
    * `PrefixSearch.collect`, `PrefixSearch.collect_eq`
-/

namespace ArktsServer

namespace PrefixSearch

----------
-- Binary Search
----------

/- The first index between two that is not below. -/
def firstNot (below : Nat → Bool) (low high : Nat) : Nat :=
  if low < high then
    let middle := low + (high - low) / 2
    if below middle then
      firstNot below (middle + 1) high
    else
      firstNot below low middle
  else
    low
termination_by high - low

/- Whatever is below stands in front. -/
theorem firstNot_spec
    {below : Nat → Bool}
    (low high : Nat)
    (hOrder : low ≤ high)
    (hBelow :
      ∀ first second, first ≤ second → second < high →
        below second = true → below first = true) :
    low ≤ firstNot below low high ∧
      firstNot below low high ≤ high ∧
      (∀ index, low ≤ index →
        index < firstNot below low high →
          below index = true) ∧
      ∀ index, firstNot below low high ≤ index →
        index < high → below index = false := by
  fun_induction firstNot below low high with
  | case1 low high hLess middle hMiddle ih =>
    rcases ih (by omega) hBelow with
      ⟨hLow, hHigh, hFront, hBack⟩
    refine ⟨by omega, hHigh, ?_, hBack⟩
    intro index hIndex hFound
    by_cases hThere : middle + 1 ≤ index
    · exact hFront index hThere hFound
    · exact hBelow index middle (by omega) (by omega) hMiddle
  | case2 low high hLess middle hMiddle ih =>
    rcases ih (by omega) (fun first second hFirst hSecond =>
        hBelow first second hFirst (by omega)) with
      ⟨hLow, hHigh, hFront, hBack⟩
    refine ⟨hLow, by omega, hFront, ?_⟩
    intro index hIndex hEnd
    by_cases hThere : index < middle
    · exact hBack index hIndex hThere
    · rw [Bool.eq_false_iff]
      intro hNever
      exact hMiddle (hBelow middle index (by omega) hEnd hNever)
  | case3 low high hNotLess =>
    refine ⟨Nat.le_refl _, hOrder, ?_, ?_⟩
    · intro index hLow hHigh
      omega
    · intro index hLow hHigh
      omega

----------
-- Prefixes
----------

variable {Letter : Type} [LinearOrder Letter]

/- What starts with a text is not below it. -/
theorem not_lt_of_prefix
    {start text : List Letter}
    (hPrefix : start <+: text) :
    ¬ text < start := by
  rcases hPrefix with ⟨rest, rfl⟩
  induction start with
  | nil => exact List.not_lt_nil _
  | cons letter start ih =>
    intro hLess
    rw [List.cons_append, List.cons_lt_cons_iff] at hLess
    rcases hLess with hHead | ⟨_, hTail⟩
    · exact lt_irrefl _ hHead
    · exact ih hTail

/- Between a prefix and what starts with it. -/
theorem prefix_of_between
    {start text later : List Letter}
    (hText : ¬ text < start)
    (hLater : text < later)
    (hPrefix : start <+: later) :
    start <+: text := by
  induction start generalizing text later with
  | nil => exact List.nil_prefix
  | cons letter start ih =>
    rcases hPrefix with ⟨rest, rfl⟩
    cases text with
    | nil => exact absurd (List.nil_lt_cons _ _) hText
    | cons other text =>
      rw [List.cons_lt_cons_iff] at hText
      rw [List.cons_append, List.cons_lt_cons_iff] at hLater
      rcases not_or.mp hText with ⟨hHead, hTail⟩
      rcases hLater with hLess | ⟨rfl, hMore⟩
      · exact absurd hLess hHead
      · refine List.cons_prefix_cons.mpr ⟨rfl, ?_⟩
        refine ih ?_ hMore (List.prefix_append _ _)
        exact fun hNever => hTail ⟨rfl, hNever⟩

----------
-- Sorted Lists
----------

variable {Item : Type}

/- Behind what is below, the matches come first. -/
theorem filter_prefix
    {textOf : Item → List Letter}
    {starts : Item → Bool}
    {start : List Letter}
    (hStarts :
      ∀ item, starts item = true ↔ start <+: textOf item)
    {items : List Item}
    (hSorted :
      items.Pairwise fun first second =>
        textOf first < textOf second)
    {position : Nat}
    (hFront :
      ∀ index, index < position → ∀ item,
        items[index]? = some item → textOf item < start)
    (hBack :
      ∀ index, position ≤ index → ∀ item,
        items[index]? = some item → ¬ textOf item < start) :
    (items.drop position).takeWhile starts =
      items.filter starts := by
  have hTake : (items.take position).filter starts = [] := by
    rw [List.filter_eq_nil_iff]
    intro item hItem hMatch
    rcases List.getElem?_of_mem hItem with ⟨index, hIndex⟩
    have hLess : index < position := by
      have hTaken := (List.getElem?_eq_some_iff.mp hIndex).1
      rw [List.length_take] at hTaken
      omega
    rw [List.getElem?_take_of_lt hLess] at hIndex
    exact
      not_lt_of_prefix ((hStarts item).mp hMatch)
        (hFront index hLess item hIndex)
  have hDrop :
      ∀ item ∈ items.drop position,
        ¬ textOf item < start := by
    intro item hItem
    rcases List.getElem?_of_mem hItem with ⟨index, hIndex⟩
    rw [List.getElem?_drop] at hIndex
    exact hBack _ (Nat.le_add_right _ _) item hIndex
  have hWhile : ∀ rest : List Item,
      rest.Pairwise
          (fun first second =>
            textOf first < textOf second) →
        (∀ item ∈ rest, ¬ textOf item < start) →
          rest.takeWhile starts = rest.filter starts := by
    intro rest
    induction rest with
    | nil => exact fun _ _ => rfl
    | cons first rest ih =>
      intro hRest hAll
      rw [List.pairwise_cons] at hRest
      rw [List.forall_mem_cons] at hAll
      cases hFirst : starts first with
      | true =>
        rw [List.takeWhile_cons_of_pos hFirst,
          List.filter_cons_of_pos hFirst,
          ih hRest.2 hAll.2]
      | false =>
        have hNot : ¬ starts first = true := by
          rw [hFirst]
          exact Bool.false_ne_true
        rw [List.takeWhile_cons_of_neg hNot,
          List.filter_cons_of_neg hNot]
        refine (List.filter_eq_nil_iff.mpr ?_).symm
        intro item hItem hMatch
        refine hNot ((hStarts first).mpr ?_)
        exact
          prefix_of_between hAll.1 (hRest.1 item hItem)
            ((hStarts item).mp hMatch)
  rw [hWhile _ (hSorted.drop) hDrop]
  conv_rhs => rw [← List.take_append_drop position items]
  rw [List.filter_append, hTake, List.nil_append]

omit [LinearOrder Letter] in
/- Collect matches up to a limit, and where that ends. -/
def collect
    (items : List Item)
    (starts : Item → Bool) : Nat → Nat → List Item × Nat
| 0, position => ([], position)
| limit + 1, position =>
    match items[position]? with
    | none => ([], position)
    | some item =>
        if starts item then
          let rest := collect items starts limit (position + 1)
          (item :: rest.1, rest.2)
        else
          ([], position)

theorem collect_eq
    (items : List Item)
    (starts : Item → Bool)
    (limit position : Nat) :
    (collect items starts limit position).1 =
        ((items.drop position).takeWhile starts).take limit ∧
      ((items[(collect items starts limit position).2]?).any
            starts = true ↔
        limit <
          ((items.drop position).takeWhile
            starts).length) := by
  induction limit generalizing position with
  | zero =>
    refine ⟨rfl, ?_⟩
    unfold collect
    cases hItem : items[position]? with
    | none =>
      have hEnd := List.getElem?_eq_none_iff.mp hItem
      rw [List.drop_eq_nil_of_le hEnd]
      simp
    | some item =>
      rcases List.getElem?_eq_some_iff.mp hItem with
        ⟨hLess, hGet⟩
      rw [List.drop_eq_getElem_cons hLess, hGet, Option.any_some]
      cases hStarts : starts item with
      | true => simp [hStarts]
      | false => simp [hStarts]
  | succ limit ih =>
    unfold collect
    cases hItem : items[position]? with
    | none =>
      have hEnd := List.getElem?_eq_none_iff.mp hItem
      rw [List.drop_eq_nil_of_le hEnd]
      simp [hItem]
    | some item =>
      rcases List.getElem?_eq_some_iff.mp hItem with
        ⟨hLess, hGet⟩
      rcases ih (position + 1) with ⟨hTaken, hNext⟩
      rw [List.drop_eq_getElem_cons hLess, hGet]
      simp only
      cases hStarts : starts item with
      | true =>
        rw [List.takeWhile_cons_of_pos hStarts,
          List.take_succ_cons, List.length_cons]
        rw [if_pos rfl]
        simp only
        rw [hTaken, Nat.succ_lt_succ_iff]
        exact ⟨rfl, hNext⟩
      | false => simp [hStarts, hItem]

end PrefixSearch

end ArktsServer
