import Mathlib.Data.List.Nodup
import Mathlib.Data.List.Pairwise
import Mathlib.Data.List.Perm.Subperm
import Mathlib.Data.List.Sort
import Mathlib.Data.Prod.Lex
import Mathlib.Order.Lattice

/-
  The first items of a sorted list.  Items are sorted by a
  key that no two of them share, so that neither the order
  of the list nor the sorting algorithm matters, and an item
  is among the first ones exactly when few keys are smaller.
  Where items share keys, the order in which they arrived
  makes the keys different.

  Main declarations:
    * `TopItems.sortBy`, `TopItems.top`
    * `TopItems.sortBy_of_perm`, `TopItems.sortBy_filter`
    * `TopItems.sortBy_congr`
    * `TopItems.mem_top`
    * `TopItems.top_filter_eq_iff`
    * `TopItems.top_eq_sortBy`
    * `TopItems.arrivalKey`, `TopItems.sortBy_stable`
    * `TopItems.SameTop`, `TopItems.top_eq_iff`
-/

namespace ArktsServer

namespace TopItems

variable {α Key : Type} (key : α → Key)

----------
-- Keys
----------

/- No two items have the same key. -/
def Distinct (items : List α) : Prop :=
  (items.map key).Nodup

variable {key}
variable {items others : List α}

theorem Distinct.of_perm
    (hDistinct : Distinct key items)
    (hPerm : items.Perm others) :
    Distinct key others :=
  (hPerm.map key).nodup_iff.mp hDistinct

theorem Distinct.filter
    (hDistinct : Distinct key items)
    (keep : α → Bool) :
    Distinct key (items.filter keep) :=
  (List.filter_sublist.map key).nodup hDistinct

----------
-- Sorting
----------

section Sorting

variable [LinearOrder Key] (key)

def sortBy (items : List α) : List α :=
  items.insertionSort fun left right => key left ≤ key right

/- The first items in the order of their keys. -/
def top (limit : Nat) (items : List α) : List α :=
  (sortBy key items).take limit

variable {key}

theorem sortBy_perm (items : List α) :
    (sortBy key items).Perm items :=
  List.perm_insertionSort _ items

theorem mem_sortBy
    {item : α} :
    item ∈ sortBy key items ↔ item ∈ items :=
  (sortBy_perm items).mem_iff

theorem sortBy_sorted (items : List α) :
    (sortBy key items).Pairwise fun left right =>
      key left ≤ key right := by
  have hTotal :
      Std.Total fun left right : α => key left ≤ key right :=
    ⟨fun left right => le_total (key left) (key right)⟩
  have hTrans :
      IsTrans α fun left right => key left ≤ key right :=
    ⟨fun _ _ _ => le_trans⟩
  exact List.pairwise_insertionSort _ items

/- With keys of their own, items are sorted strictly. -/
theorem sortBy_strict
    (hDistinct : Distinct key items) :
    (sortBy key items).Pairwise fun left right =>
      key left < key right := by
  have hApart :
      (sortBy key items).Pairwise fun left right =>
        key left ≠ key right :=
    List.pairwise_map.mp
      (hDistinct.of_perm (sortBy_perm items).symm)
  refine (sortBy_sorted items).imp₂ ?_ hApart
  exact fun _ _ hLe hNe => lt_of_le_of_ne hLe hNe

theorem distinct_of_sorted
    (hSorted :
      items.Pairwise fun left right => key left < key right) :
    Distinct key items :=
  List.pairwise_map.mpr (hSorted.imp fun hLess => hLess.ne)

/- A list that is sorted strictly stays as it is. -/
theorem sortBy_of_sorted
    (hSorted :
      items.Pairwise fun left right => key left < key right) :
    sortBy key items = items :=
  (hSorted.imp fun hLess => le_of_lt hLess).insertionSort_eq

theorem eq_of_sorted
    (hPerm : items.Perm others)
    (hItems :
      items.Pairwise fun left right => key left < key right)
    (hOthers :
      others.Pairwise fun left right =>
        key left < key right) :
    items = others := by
  refine hPerm.eq_of_pairwise ?_ hItems hOthers
  intro left right _ _ hLess hGreater
  exact absurd hGreater (lt_asymm hLess)

theorem sortBy_of_perm
    (hPerm : items.Perm others)
    (hDistinct : Distinct key items) :
    sortBy key items = sortBy key others :=
  eq_of_sorted
    ((sortBy_perm items).trans
      (hPerm.trans (sortBy_perm others).symm))
    (sortBy_strict hDistinct)
    (sortBy_strict (hDistinct.of_perm hPerm))

/- The items of one key. -/
def ofKey (key : α → Key) (place : Key) (items : List α) :
    List α :=
  items.filter fun item => key item = place

/- Sorting keeps the items of one key in their order. -/
theorem ofKey_sortBy
    (place : Key)
    (items : List α) :
    ofKey key place (sortBy key items) =
      ofKey key place items := by
  have hTotal :
      Std.Total fun left right : α => key left ≤ key right :=
    ⟨fun left right => le_total (key left) (key right)⟩
  have hTrans :
      IsTrans α fun left right => key left ≤ key right :=
    ⟨fun _ _ _ => le_trans⟩
  have hTied :
      (ofKey key place items).Pairwise fun left right =>
        key left ≤ key right := by
    refine List.pairwise_of_forall_mem_list ?_
    intro left hLeft right hRight
    have hBoth := (List.mem_filter.mp hLeft).2
    have hOther := (List.mem_filter.mp hRight).2
    exact
      le_of_eq
        ((of_decide_eq_true hBoth).trans
          (of_decide_eq_true hOther).symm)
  have hSub :=
    (List.sublist_insertionSort hTied
      List.filter_sublist).filter
        fun item => decide (key item = place)
  unfold ofKey at hSub ⊢
  simp only [List.filter_filter, Bool.and_self] at hSub
  exact
    (hSub.eq_of_length
      ((sortBy_perm items).filter _).length_eq.symm).symm

theorem mem_iff_of_ofKey
    (hSame :
      ∀ place, ofKey key place items = ofKey key place others)
    (item : α) :
    item ∈ items ↔ item ∈ others := by
  have hBoth := congrArg (item ∈ ·) (hSame (key item))
  simpa [ofKey] using hBoth

/- A sorted list is told by the items of every key. -/
theorem eq_of_ofKey
    (hItems :
      items.Pairwise fun left right => key left ≤ key right)
    (hOthers :
      others.Pairwise fun left right => key left ≤ key right)
    (hSame :
      ∀ place, ofKey key place items = ofKey key place others) :
    items = others := by
  induction items generalizing others with
  | nil =>
    cases others with
    | nil => rfl
    | cons other others =>
      exact
        absurd
          ((mem_iff_of_ofKey hSame other).mpr List.mem_cons_self)
          nofun
  | cons item items ih =>
    have hMem := mem_iff_of_ofKey hSame
    cases others with
    | nil =>
      exact absurd ((hMem item).mp List.mem_cons_self) nofun
    | cons other others =>
      have hLe : key item ≤ key other := by
        rcases List.mem_cons.mp
            ((hMem other).mpr List.mem_cons_self) with
          rfl | hLater
        · exact le_rfl
        · exact List.rel_of_pairwise_cons hItems hLater
      have hGe : key other ≤ key item := by
        rcases List.mem_cons.mp
            ((hMem item).mp List.mem_cons_self) with
          rfl | hLater
        · exact le_rfl
        · exact List.rel_of_pairwise_cons hOthers hLater
      have hKey := le_antisymm hLe hGe
      have hHead := hSame (key item)
      unfold ofKey at hHead hSame
      rw [List.filter_cons_of_pos (by simp),
        List.filter_cons_of_pos (by simp [hKey])] at hHead
      injection hHead with hItem hTail
      subst hItem
      have hRest :
          ∀ place, ofKey key place items =
            ofKey key place others := by
        intro place
        have hPlace := hSame place
        rw [List.filter_cons, List.filter_cons] at hPlace
        split at hPlace
        · injection hPlace
        · exact hPlace
      exact
        congrArg _
          (ih (List.Pairwise.of_cons hItems)
            (List.Pairwise.of_cons hOthers) hRest)

/- Sorting depends on the order of equal keys only. -/
theorem sortBy_congr
    (hSame :
      ∀ place, ofKey key place items = ofKey key place others) :
    sortBy key items = sortBy key others := by
  refine eq_of_ofKey (sortBy_sorted _) (sortBy_sorted _) ?_
  intro place
  rw [ofKey_sortBy, ofKey_sortBy, hSame]

/- Items are sorted as what they stand for is. -/
theorem map_sortBy
    {β ImageKey : Type}
    [LinearOrder ImageKey]
    {image : α → β}
    {imageKey : β → ImageKey}
    (hKey :
      ∀ left ∈ items,
        ∀ right ∈ items,
          key left ≤ key right ↔
            imageKey (image left) ≤ imageKey (image right)) :
    (sortBy key items).map image =
      sortBy imageKey (items.map image) :=
  List.map_insertionSort _ _ image items hKey

theorem sortBy_map
    {β : Type}
    (image : α → β)
    (imageKey : β → Key)
    (items : List α) :
    sortBy imageKey (items.map image) =
      (sortBy (fun item => imageKey (image item))
        items).map image := by
  symm
  exact map_sortBy fun _ _ _ _ => Iff.rfl

/- Pieces with ever larger keys are sorted one by one. -/
theorem sortBy_flatMap
    {Piece : Type}
    {pieces : List Piece}
    {itemsOf : Piece → List α}
    (hDistinct :
      ∀ piece ∈ pieces, Distinct key (itemsOf piece))
    (hOrder :
      pieces.Pairwise fun before after =>
        ∀ left ∈ itemsOf before,
          ∀ right ∈ itemsOf after, key left < key right) :
    sortBy key (pieces.flatMap itemsOf) =
        pieces.flatMap (fun piece => sortBy key (itemsOf piece))
      ∧ Distinct key (pieces.flatMap itemsOf) := by
  have hPerm :
      (pieces.flatMap fun piece =>
        sortBy key (itemsOf piece)).Perm
        (pieces.flatMap itemsOf) :=
    List.Perm.flatMap_left _ fun piece _ => sortBy_perm _
  have hSorted :
      (pieces.flatMap fun piece =>
        sortBy key (itemsOf piece)).Pairwise
        fun left right => key left < key right := by
    refine List.pairwise_flatMap.mpr ⟨?_, ?_⟩
    · intro piece hPiece
      exact sortBy_strict (hDistinct piece hPiece)
    · refine hOrder.imp ?_
      intro before after hLess left hLeft right hRight
      exact
        hLess left (mem_sortBy.mp hLeft) right
          (mem_sortBy.mp hRight)
  have hAll := (distinct_of_sorted hSorted).of_perm hPerm
  exact
    ⟨eq_of_sorted ((sortBy_perm _).trans hPerm.symm)
      (sortBy_strict hAll) hSorted, hAll⟩

theorem sortBy_filter
    (hDistinct : Distinct key items)
    (keep : α → Bool) :
    sortBy key (items.filter keep) =
      (sortBy key items).filter keep :=
  eq_of_sorted
    ((sortBy_perm _).trans ((sortBy_perm items).symm.filter keep))
    (sortBy_strict (hDistinct.filter keep))
    ((sortBy_strict hDistinct).filter keep)

end Sorting

----------
-- First Items
----------

section FirstItems

variable [LinearOrder Key]

variable {limit : Nat}

/- The place of an item is the number of smaller keys. -/
theorem mem_take_of_sorted
    (hSorted :
      items.Pairwise fun left right => key left < key right)
    {item : α} :
    item ∈ items.take limit ↔
      item ∈ items ∧
        items.countP (fun other => key other < key item)
          < limit := by
  induction items generalizing limit with
  | nil => simp
  | cons head tail ih =>
    have hTail := List.Pairwise.of_cons hSorted
    have hHead := (List.pairwise_cons.mp hSorted).1
    cases limit with
    | zero => simp
    | succ limit =>
      rw [List.take_succ_cons, List.mem_cons,
        List.mem_cons, ih hTail, List.countP_cons]
      have hFirst :
          item = head →
          tail.countP
              (fun other => key other < key item) = 0 := by
        rintro rfl
        refine List.countP_eq_zero.mpr ?_
        intro other hOther
        have hLess := hHead other hOther
        simp [le_of_lt hLess]
      by_cases hSame : item = head
      · have hNone := hFirst hSame
        subst hSame
        simp [hNone]
      · constructor
        · rintro (hEq | ⟨hMem, hCount⟩)
          · exact absurd hEq hSame
          · refine ⟨Or.inr hMem, ?_⟩
            have hBehind := hHead item hMem
            simp only [hBehind, decide_true, if_true]
            omega
        · rintro ⟨hEq | hMem, hCount⟩
          · exact absurd hEq hSame
          · have hBehind := hHead item hMem
            simp only [hBehind, decide_true, if_true] at hCount
            exact Or.inr ⟨hMem, by omega⟩

theorem mem_top
    (hDistinct : Distinct key items)
    {item : α} :
    item ∈ top key limit items ↔
      item ∈ items ∧
        items.countP (fun other => key other < key item)
          < limit := by
  unfold top
  rw [mem_take_of_sorted (sortBy_strict hDistinct),
    mem_sortBy, (sortBy_perm items).countP_eq]

theorem take_filter_eq_iff
    {keep : α → Bool}
    {limit : Nat} :
    (items.filter keep).take limit = items.take limit ↔
      ∀ item ∈ items.take limit, keep item = true := by
  constructor
  · intro hSame item hItem
    rw [← hSame] at hItem
    exact (List.mem_filter.mp (List.mem_of_mem_take hItem)).2
  · intro hKept
    induction items generalizing limit with
    | nil => rfl
    | cons head tail ih =>
      cases limit with
      | zero => rfl
      | succ limit =>
        rw [List.take_succ_cons] at hKept
        have hHead := hKept head List.mem_cons_self
        rw [List.filter_cons_of_pos hHead,
          List.take_succ_cons, List.take_succ_cons,
          ih fun item hItem =>
            hKept item (List.mem_cons_of_mem _ hItem)]

/-
  Leaving items out keeps the first ones exactly when each
  item left out has enough others before it.
-/
theorem top_filter_eq_iff
    (hDistinct : Distinct key items)
    {keep : α → Bool}
    {limit : Nat} :
    top key limit (items.filter keep) = top key limit items ↔
      ∀ item ∈ items,
        keep item = false →
        limit
          ≤ items.countP fun other =>
              key other < key item := by
  unfold top
  rw [sortBy_filter hDistinct, take_filter_eq_iff]
  constructor
  · intro hKept item hItem hLeft
    by_contra hFew
    have hFirst :=
      (mem_top hDistinct).mpr ⟨hItem, Nat.lt_of_not_le hFew⟩
    have hKeep := hKept item hFirst
    rw [hLeft] at hKeep
    cases hKeep
  · intro hMissed item hItem
    rcases (mem_top hDistinct).mp hItem with ⟨hMem, hFew⟩
    cases hKeep : keep item with
    | true => rfl
    | false =>
      exact absurd hFew
        (Nat.not_lt_of_le (hMissed item hMem hKeep))

/- Enough smaller keys fill the first items without it. -/
theorem length_top_of_many
    {item : α}
    (hMany :
      limit
        ≤ items.countP fun other => key other < key item) :
    (top key limit items).length = limit := by
  have hLength : limit ≤ items.length :=
    Nat.le_trans hMany List.countP_le_length
  unfold top
  rw [List.length_take, (sortBy_perm items).length_eq]
  exact Nat.min_eq_left hLength

theorem top_nodup
    (hDistinct : Distinct key items)
    (limit : Nat) :
    (top key limit items).Nodup :=
  List.Nodup.of_map key
    ((((sortBy_perm items).map key).nodup_iff.mpr
      hDistinct).sublist ((List.take_sublist limit _).map key))

theorem top_sorted
    (hDistinct : Distinct key items)
    (limit : Nat) :
    (top key limit items).Pairwise fun left right =>
      key left < key right :=
  (sortBy_strict hDistinct).sublist (List.take_sublist _ _)

/- The first items are those with few smaller keys. -/
theorem top_eq_sortBy
    (hDistinct : Distinct key items)
    (limit : Nat) :
    top key limit items =
      sortBy key
        (items.filter fun item =>
          items.countP (fun other => key other < key item)
            < limit) := by
  have hSorted :=
    sortBy_strict (hDistinct.filter fun item =>
      items.countP (fun other => key other < key item) < limit)
  have hNodup :=
    hSorted.imp fun hLess => ne_of_apply_ne key hLess.ne
  refine eq_of_sorted ?_ (top_sorted hDistinct limit) hSorted
  refine
    (List.perm_ext_iff_of_nodup (top_nodup hDistinct limit)
      hNodup).mpr ?_
  intro item
  rw [mem_top hDistinct, mem_sortBy, List.mem_filter,
    decide_eq_true_eq]

theorem countP_mono
    {item other : α}
    (hLe : key item ≤ key other) :
    (items.countP fun another => key another < key item)
      ≤ items.countP fun another =>
          key another < key other := by
  refine List.countP_mono_left ?_
  intro another _ hLess
  rw [decide_eq_true_eq] at hLess ⊢
  exact lt_of_lt_of_le hLess hLe

end FirstItems

----------
-- Stable Sorting
----------

section Stable

theorem orderedInsert_congr
    {first second : α → α → Prop}
    [DecidableRel first]
    [DecidableRel second]
    {item : α}
    (hSame :
      ∀ other ∈ items,
        first item other ↔ second item other) :
    items.orderedInsert first item =
      items.orderedInsert second item := by
  induction items with
  | nil => rfl
  | cons head tail ih =>
    have hHead := hSame head List.mem_cons_self
    have hTail := ih fun other hOther =>
      hSame other (List.mem_cons_of_mem _ hOther)
    rw [List.orderedInsert_cons, List.orderedInsert_cons, hTail]
    simp only [hHead]

variable {Arrival : Type} (key) (arrival : α → Arrival)

/- The key of an item and, for ties, when it arrived. -/
def arrivalKey (item : α) : Key ×ₗ Arrival :=
  toLex (key item, arrival item)

variable {key arrival}

theorem distinct_arrivalKey
    (hArrivals : Distinct arrival items) :
    Distinct (arrivalKey key arrival) items := by
  refine List.Nodup.of_map (fun both => (ofLex both).2) ?_
  rw [List.map_map]
  exact hArrivals

variable [LinearOrder Key] [LinearOrder Arrival]

/- Items that are sorted stably keep the order of ties. -/
theorem sortBy_stable
    (hArrivals :
      items.Pairwise fun left right =>
        arrival left < arrival right) :
    sortBy key items =
      sortBy (arrivalKey key arrival) items := by
  induction items with
  | nil => rfl
  | cons head tail ih =>
    rw [List.pairwise_cons] at hArrivals
    have hInsert :
        ∀ other ∈ tail,
          key head ≤ key other ↔
            arrivalKey key arrival head
              ≤ arrivalKey key arrival other := by
      intro other hOther
      unfold arrivalKey
      rw [Prod.Lex.toLex_le_toLex, le_iff_lt_or_eq]
      have hEarlier := le_of_lt (hArrivals.1 other hOther)
      simp only [hEarlier, and_true]
    have hHead :
        sortBy key (head :: tail) =
          (sortBy key tail).orderedInsert
            (fun left right => key left ≤ key right)
            head := rfl
    have hStable :
        sortBy (arrivalKey key arrival) (head :: tail) =
          (sortBy (arrivalKey key arrival)
            tail).orderedInsert
              (fun left right =>
                arrivalKey key arrival left
                  ≤ arrivalKey key arrival right)
              head := rfl
    rw [hHead, hStable, ih hArrivals.2]
    exact
      orderedInsert_congr fun other hOther =>
        hInsert other (mem_sortBy.mp hOther)

end Stable

----------
-- Two Lists
----------

section TwoLists

variable {First Second : Type}
variable [LinearOrder First] [LinearOrder Second]
variable (first : α → First) (second : α → Second)

/-
  Two lists, each with an order of its own, agree on their
  first items: an item of one list alone has enough others
  before it, and two items of both, of which one is among
  the first ones, stand in the same order.
-/
structure SameTop
    (limit : Nat)
    (ones others : List α) : Prop where
  onlyFirst :
    ∀ item ∈ ones,
      item ∉ others →
      limit
        ≤ ones.countP fun other => first other < first item
  onlySecond :
    ∀ item ∈ others,
      item ∉ ones →
      limit
        ≤ others.countP fun other =>
            second other < second item
  order :
    ∀ item ∈ others,
      (others.countP fun other => second other < second item)
          < limit →
      ∀ behind ∈ ones,
        behind ∈ others →
        second item < second behind →
        first item < first behind

variable {first second}

/- Items of a list that is sorted in two ways. -/
theorem order_of_sorted
    (hFirst :
      items.Pairwise fun left right =>
        first left < first right)
    (hSecond :
      items.Pairwise fun left right =>
        second left < second right)
    {item behind : α}
    (hItem : item ∈ items)
    (hBehind : behind ∈ items)
    (hLess : second item < second behind) :
    first item < first behind := by
  have hBoth :
      items.Pairwise fun left right =>
        (first left < first right ∧
          second left < second right) ∨
          (first right < first left ∧
            second right < second left) :=
    (hFirst.and hSecond).imp fun hPair => Or.inl hPair
  have hSymm :
      Std.Symm fun left right : α =>
        (first left < first right ∧
          second left < second right) ∨
          (first right < first left ∧
            second right < second left) :=
    ⟨fun _ _ hEither => hEither.symm⟩
  have hApart : item ≠ behind := by
    rintro rfl
    exact lt_irrefl _ hLess
  rcases hBoth.forall hItem hBehind hApart with
    hForward | hBackward
  · exact hForward.1
  · exact absurd hLess (lt_asymm hBackward.2)

variable {ones : List α}

theorem sameTop_of_eq
    (hOnes : Distinct first ones)
    (hOthers : Distinct second others)
    {limit : Nat}
    (hSame : top first limit ones = top second limit others) :
    SameTop first second limit ones others := by
  constructor
  · intro item hItem hAbsent
    by_contra hFew
    have hTop :=
      (mem_top hOnes).mpr ⟨hItem, Nat.lt_of_not_le hFew⟩
    rw [hSame] at hTop
    exact hAbsent ((mem_top hOthers).mp hTop).1
  · intro item hItem hAbsent
    by_contra hFew
    have hTop :=
      (mem_top hOthers).mpr ⟨hItem, Nat.lt_of_not_le hFew⟩
    rw [← hSame] at hTop
    exact hAbsent ((mem_top hOnes).mp hTop).1
  · intro item hItem hFew behind hBehind _ hLess
    have hTop := (mem_top hOthers).mpr ⟨hItem, hFew⟩
    rw [← hSame] at hTop
    by_contra hNot
    have hLe := le_of_not_gt hNot
    have hBehindFew :=
      Nat.lt_of_le_of_lt (countP_mono hLe)
        ((mem_top hOnes).mp hTop).2
    have hBehindTop := (mem_top hOnes).mpr ⟨hBehind, hBehindFew⟩
    have hSecond := top_sorted hOthers limit
    rw [← hSame] at hSecond
    exact
      hNot
        (order_of_sorted (top_sorted hOnes limit) hSecond hTop
          hBehindTop hLess)

/- The first items of the second list are those of the first. -/
theorem top_subset
    (hOnes : Distinct first ones)
    (hOthers : Distinct second others)
    {limit : Nat}
    (hSame : SameTop first second limit ones others) :
    top second limit others ⊆ top first limit ones := by
  intro item hTop
  rcases (mem_top hOthers).mp hTop with ⟨hItem, hFew⟩
  have hOne : item ∈ ones := by
    by_contra hAbsent
    exact
      absurd hFew
        (Nat.not_lt_of_le (hSame.onlySecond item hItem hAbsent))
  by_contra hNot
  have hMany :
      limit
        ≤ ones.countP fun other => first other < first item := by
    by_contra hFewOnes
    exact
      hNot ((mem_top hOnes).mpr ⟨hOne, Nat.lt_of_not_le hFewOnes⟩)
  -- The first list is full, so it holds an item of its own.
  have hFull := length_top_of_many hMany
  have hOwn :
      ∃ other ∈ top first limit ones,
        other ∉ top second limit others := by
    by_contra hNone
    have hSubset :
        top first limit ones ⊆ top second limit others := by
      intro other hOther
      by_contra hAbsent
      exact hNone ⟨other, hOther, hAbsent⟩
    have hLength :
        (top second limit others).length
          ≤ (top first limit ones).length := by
      rw [hFull]
      exact List.length_take_le _ _
    have hPerm :=
      ((top_nodup hOnes limit).subperm
        hSubset).perm_of_length_le hLength
    exact hNot (hPerm.mem_iff.mpr hTop)
  rcases hOwn with ⟨other, hOtherTop, hOtherNot⟩
  rcases (mem_top hOnes).mp hOtherTop with
    ⟨hOtherOne, hOtherFew⟩
  have hOther : other ∈ others := by
    by_contra hAbsent
    exact
      absurd hOtherFew
        (Nat.not_lt_of_le
          (hSame.onlyFirst other hOtherOne hAbsent))
  have hLess : second item < second other := by
    by_contra hLe
    exact
      hOtherNot
        ((mem_top hOthers).mpr
          ⟨hOther,
            Nat.lt_of_le_of_lt
              (countP_mono (le_of_not_gt hLe)) hFew⟩)
  have hBefore :=
    hSame.order item hItem hFew other hOtherOne hOther hLess
  exact
    hNot
      ((mem_top hOnes).mpr
        ⟨hOne,
          Nat.lt_of_le_of_lt
            (countP_mono (le_of_lt hBefore)) hOtherFew⟩)

/- Two lists have the same first items if they agree. -/
theorem top_eq_iff
    (hOnes : Distinct first ones)
    (hOthers : Distinct second others)
    {limit : Nat} :
    top first limit ones = top second limit others ↔
      SameTop first second limit ones others := by
  refine ⟨sameTop_of_eq hOnes hOthers, ?_⟩
  intro hSame
  have hSubset := top_subset hOnes hOthers hSame
  have hLength :
      (top first limit ones).length
        ≤ (top second limit others).length := by
    by_contra hShort
    have hBack :
        top first limit ones ⊆ top second limit others := by
      intro item hTop
      rcases (mem_top hOnes).mp hTop with ⟨hOne, hFew⟩
      have hItem : item ∈ others := by
        by_contra hAbsent
        exact
          absurd hFew
            (Nat.not_lt_of_le (hSame.onlyFirst item hOne hAbsent))
      by_contra hNot
      have hMany :
          limit
            ≤ others.countP fun other =>
                second other < second item := by
        by_contra hFewOthers
        exact
          hNot
            ((mem_top hOthers).mpr
              ⟨hItem, Nat.lt_of_not_le hFewOthers⟩)
      have hFull := length_top_of_many hMany
      have hBound : (top first limit ones).length ≤ limit :=
        List.length_take_le _ _
      omega
    exact hShort ((top_nodup hOnes limit).subperm hBack).length_le
  have hPerm :=
    ((top_nodup hOthers limit).subperm
      hSubset).perm_of_length_le hLength
  have hFirst :
      (top second limit others).Pairwise fun left right =>
        first left < first right := by
    refine (top_sorted hOthers limit).imp_of_mem ?_
    intro left right hLeft hRight hLess
    rcases (mem_top hOthers).mp hLeft with ⟨hItem, hFew⟩
    rcases (mem_top hOthers).mp hRight with ⟨hBehind, _⟩
    have hOne := ((mem_top hOnes).mp (hSubset hRight)).1
    exact hSame.order left hItem hFew right hOne hBehind hLess
  exact (eq_of_sorted hPerm hFirst (top_sorted hOnes limit)).symm

end TwoLists

end TopItems

end ArktsServer
