import Mathlib.Data.List.Sort
import Mathlib.Data.List.Chain
import Mathlib.Tactic.Common

/-
  Neighbours of sorted lists: what holds of all neighbours in
  a list that a strict order sorts holds of all items with
  none between them, and a stable sort is the sort by the
  items and then by the places that they had.

  Main declarations:
    * `SortedChains.isChain_iff`
    * `SortedChains.StableLe`
    * `SortedChains.map_insertionSort`
    * `SortedChains.stableSort_sorted`
-/

namespace ArktsServer

namespace SortedChains

variable {Item : Type}

/- Neighbours have no item between them. -/
theorem isChain_iff
    {before apart : Item → Item → Prop}
    (hIrrefl : ∀ item, ¬ before item item)
    (hTrans :
      ∀ first second third,
        before first second → before second third →
          before first third)
    {items : List Item}
    (hSorted : items.Pairwise before) :
    items.IsChain apart ↔
      ∀ first ∈ items, ∀ second ∈ items,
        before first second →
          (∀ other ∈ items,
            ¬ (before first other ∧ before other second)) →
          apart first second := by
  have hAsymm : ∀ first second,
      before first second → ¬ before second first :=
    fun first second hFirst hSecond =>
      hIrrefl first (hTrans _ _ _ hFirst hSecond)
  induction items with
  | nil =>
    exact
      iff_of_true List.isChain_nil
        fun _ hNever => absurd hNever List.not_mem_nil
  | cons item items ih =>
    rcases List.pairwise_cons.mp hSorted with
      ⟨hItem, hItems⟩
    have hRest := ih hItems
    have hTail :
        (∀ first ∈ item :: items, ∀ second ∈ item :: items,
          before first second →
            (∀ other ∈ item :: items,
              ¬ (before first other ∧ before other second)) →
            apart first second) →
          items.IsChain apart := by
      intro hAll
      refine hRest.mpr ?_
      intro first hFirst second hSecond hBefore hNone
      refine
        hAll first (List.mem_cons_of_mem _ hFirst) second
          (List.mem_cons_of_mem _ hSecond) hBefore ?_
      intro other hOther hBetween
      rcases List.mem_cons.mp hOther with rfl | hLater
      · exact hAsymm _ _ (hItem first hFirst) hBetween.1
      · exact hNone other hLater hBetween
    cases items with
    | nil =>
      refine iff_of_true (List.isChain_singleton _) ?_
      intro first hFirst second hSecond hBefore
      rw [List.mem_singleton.mp hFirst,
        List.mem_singleton.mp hSecond] at hBefore
      exact absurd hBefore (hIrrefl _)
    | cons next items =>
      rw [List.isChain_cons_cons]
      constructor
      · rintro ⟨hNext, hChain⟩ first hFirst second hSecond
          hBefore hNone
        rcases List.mem_cons.mp hFirst with rfl | hFirst
        · rcases List.mem_cons.mp hSecond with
            rfl | hSecond
          · exact absurd hBefore (hIrrefl _)
          · rcases List.mem_cons.mp hSecond with
              rfl | hSecond
            · exact hNext
            · refine absurd ⟨?_, ?_⟩ (hNone next (by simp))
              · exact hItem next List.mem_cons_self
              · exact
                  (List.pairwise_cons.mp hItems).1 second hSecond
        · rcases List.mem_cons.mp hSecond with
            hSame | hSecond
          · rw [hSame] at hBefore
            exact absurd hBefore (hAsymm _ _ (hItem _ hFirst))
          · exact
              hRest.mp hChain first hFirst second hSecond
                hBefore fun other hOther =>
                  hNone other (List.mem_cons_of_mem _ hOther)
      · intro hAll
        refine ⟨?_, hTail hAll⟩
        refine
          hAll item (by simp) next (by simp)
            (hItem next List.mem_cons_self) ?_
        rintro other hOther ⟨hAfter, hBefore⟩
        rcases List.mem_cons.mp hOther with rfl | hOther
        · exact hIrrefl _ hAfter
        · rcases List.mem_cons.mp hOther with rfl | hOther
          · exact hIrrefl _ hBefore
          · exact
              hAsymm _ _ hBefore
                ((List.pairwise_cons.mp hItems).1 other hOther)

----------
-- Stable Sorting
----------

variable (le : Item → Item → Prop) [DecidableRel le]

/- Items that are alike stay in the order they had. -/
def StableLe (left right : Item × Nat) : Prop :=
  le left.1 right.1 ∧
    (le right.1 left.1 → left.2 ≤ right.2)

instance : DecidableRel (StableLe le) :=
  fun left right =>
    inferInstanceAs
      (Decidable
        (le left.1 right.1 ∧
          (le right.1 left.1 → left.2 ≤ right.2)))

def stableSort (items : List Item) : List (Item × Nat) :=
  items.zipIdx.insertionSort (StableLe le)

theorem map_orderedInsert
    (item : Item)
    (index : Nat)
    {items : List (Item × Nat)}
    (hLater : ∀ other ∈ items, index ≤ other.2) :
    (items.orderedInsert (StableLe le) (item, index)).map
        Prod.fst =
      (items.map Prod.fst).orderedInsert le item := by
  induction items with
  | nil => rfl
  | cons other items ih =>
    rw [List.forall_mem_cons] at hLater
    have hSame :
        StableLe le (item, index) other ↔ le item other.1 :=
      ⟨And.left, fun hLe => ⟨hLe, fun _ => hLater.1⟩⟩
    rw [List.map_cons, List.orderedInsert_cons,
      List.orderedInsert_cons]
    simp only [hSame]
    split
    · rfl
    · rw [List.map_cons, ih hLater.2]

theorem map_insertionSort
    (items : List Item) :
    (stableSort le items).map Prod.fst =
      items.insertionSort le := by
  unfold stableSort
  have hFrom : ∀ start,
      ((items.zipIdx start).insertionSort
          (StableLe le)).map Prod.fst =
        items.insertionSort le := by
    induction items with
    | nil => exact fun _ => rfl
    | cons item items ih =>
      intro start
      rw [List.zipIdx_cons, List.insertionSort_cons,
        List.insertionSort_cons, map_orderedInsert, ih]
      intro other hOther
      rw [List.mem_insertionSort] at hOther
      have hStart := (List.mem_zipIdx hOther).1
      omega
  exact hFrom 0

variable {le}

/- No two items of the list have one place. -/
theorem stableSort_sorted
    (hTotal : ∀ left right, le left right ∨ le right left)
    (hTrans :
      ∀ first second third,
        le first second → le second third → le first third)
    (items : List Item) :
    (stableSort le items).Pairwise fun left right =>
      StableLe le left right ∧ left.2 ≠ right.2 := by
  have hStable : ∀ left right,
      StableLe le left right ∨ StableLe le right left := by
    intro left right
    unfold StableLe
    by_cases hLeft : le left.1 right.1
    · by_cases hRight : le right.1 left.1
      · simp only [hLeft, hRight, true_and, forall_const]
        exact Nat.le_total _ _
      · exact Or.inl ⟨hLeft, fun hNever => absurd hNever hRight⟩
    · have hRight := (hTotal left.1 right.1).resolve_left hLeft
      exact Or.inr ⟨hRight, fun hNever => absurd hNever hLeft⟩
  have hStableTrans : ∀ first second third,
      StableLe le first second →
        StableLe le second third → StableLe le first third := by
    rintro first second third ⟨hFirst, hBack⟩ ⟨hSecond, hBack'⟩
    refine ⟨hTrans _ _ _ hFirst hSecond, ?_⟩
    intro hThird
    exact
      Nat.le_trans (hBack (hTrans _ _ _ hSecond hThird))
        (hBack' (hTrans _ _ _ hThird hFirst))
  have : Std.Total (StableLe le) := ⟨hStable⟩
  have : IsTrans (Item × Nat) (StableLe le) := ⟨hStableTrans⟩
  have hSorted :=
    List.pairwise_insertionSort (StableLe le) items.zipIdx
  have hPlaces :
      items.zipIdx.Pairwise fun left right =>
        left.2 ≠ right.2 := by
    have hRange := @List.nodup_range' 0 items.length 1
    rw [← List.zipIdx_map_snd] at hRange
    exact List.pairwise_map.mp hRange
  have hPerm := List.perm_insertionSort (StableLe le) items.zipIdx
  exact
    hSorted.and (hPerm.symm.pairwise hPlaces fun hNe => hNe.symm)

end SortedChains

end ArktsServer
