import Mathlib.Data.List.Basic
import Mathlib.Data.List.Pairwise
import Mathlib.Data.Finset.Card
import Mathlib.Order.Defs.LinearOrder

/-
  Finite ordered sets: a strictly increasing list together
  with the proof that it is one.  Iteration order is part of
  the value, so two ordered sets with the same members are
  equal.

  Main declarations:
    * `OrderedSet`
    * `OrderedSet.insert`, `OrderedSet.ofList`
    * `OrderedSet.mem_insert`, `OrderedSet.mem_ofList`
    * `OrderedSet.ext_of_mem`
    * `OrderedSet.length_le_of_subset`
    * `OrderedSet.length_lt_of_subset`
-/

----------
-- Ordered Sets
----------

namespace ArktsServer

/- A finite set listed in strictly increasing order. -/
structure OrderedSet (α : Type) [LinearOrder α] where
  toList : List α
  sorted : toList.Pairwise (· < ·)
deriving DecidableEq

namespace OrderedSet

variable {α : Type} [LinearOrder α]

instance : Membership α (OrderedSet α) :=
  ⟨fun set item => item ∈ set.toList⟩

variable {item : α}

theorem mem_def
    {set : OrderedSet α} :
    item ∈ set ↔ item ∈ set.toList :=
  Iff.rfl

instance
    (item : α)
    (set : OrderedSet α) :
    Decidable (item ∈ set) :=
  inferInstanceAs (Decidable (item ∈ set.toList))

/- The set without members. -/
def empty : OrderedSet α :=
  ⟨[], List.Pairwise.nil⟩

/- Put one item at its place in an increasing list. -/
def insertSorted (item : α) : List α → List α
| [] => [item]
| head :: tail =>
    if item < head then
      item :: head :: tail
    else if item = head then
      head :: tail
    else
      head :: insertSorted item tail

@[simp] theorem mem_insertSorted
    {item other : α}
    {items : List α} :
    other ∈ insertSorted item items ↔
      other = item ∨ other ∈ items := by
  induction items with
  | nil => simp [insertSorted]
  | cons head tail ih =>
    unfold insertSorted
    by_cases hLt : item < head
    · simp [hLt]
    · by_cases hEq : item = head
      · subst hEq
        simp
      · simp only [hLt, hEq, if_false, List.mem_cons, ih]
        tauto

theorem insertSorted_pairwise
    {items : List α}
    (hSorted : items.Pairwise (· < ·)) :
    (insertSorted item items).Pairwise (· < ·) := by
  induction items with
  | nil => simp [insertSorted]
  | cons head tail ih =>
    rcases List.pairwise_cons.mp hSorted with
      ⟨hHead, hTail⟩
    unfold insertSorted
    by_cases hLt : item < head
    · rw [if_pos hLt]
      refine List.pairwise_cons.mpr ⟨?_, hSorted⟩
      intro other hOther
      rcases List.mem_cons.mp hOther with rfl | hMem
      · exact hLt
      · exact hLt.trans (hHead other hMem)
    · rw [if_neg hLt]
      by_cases hEq : item = head
      · rw [if_pos hEq]
        exact hSorted
      · rw [if_neg hEq]
        have hGt : head < item :=
          lt_of_le_of_ne (not_lt.mp hLt) (Ne.symm hEq)
        refine List.pairwise_cons.mpr ⟨?_, ih hTail⟩
        intro other hOther
        rcases mem_insertSorted.mp hOther with rfl | hMem
        · exact hGt
        · exact hHead other hMem

/- Insert one item. -/
def insert
    (item : α)
    (set : OrderedSet α) : OrderedSet α :=
  ⟨insertSorted item set.toList,
    insertSorted_pairwise set.sorted⟩

/- Remove one item. -/
def erase
    (item : α)
    (set : OrderedSet α) : OrderedSet α :=
  ⟨set.toList.filter (· ≠ item), set.sorted.filter _⟩

/- Collect a list into an ordered set. -/
def ofList (items : List α) : OrderedSet α :=
  items.foldr insert empty

/- The number of members. -/
def length (set : OrderedSet α) : Nat :=
  set.toList.length

@[simp] theorem not_mem_empty
    (item : α) :
    ¬ item ∈ (empty : OrderedSet α) := by
  simp [mem_def, empty]

@[simp] theorem mem_insert
    {item other : α}
    {set : OrderedSet α} :
    other ∈ set.insert item ↔
      other = item ∨ other ∈ set := by
  simp [mem_def, insert]

@[simp] theorem mem_erase
    {item other : α}
    {set : OrderedSet α} :
    other ∈ set.erase item ↔
      other ∈ set ∧ other ≠ item := by
  simp [mem_def, erase]

@[simp] theorem mem_ofList
    {item : α}
    {items : List α} :
    item ∈ ofList items ↔ item ∈ items := by
  induction items with
  | nil => simp [ofList]
  | cons head tail ih =>
    change item ∈ (ofList tail).insert head ↔ _
    rw [mem_insert, ih, List.mem_cons]

----------
-- Extensionality and Cardinality
----------

/- Increasing lists have no repetition. -/
theorem nodup (set : OrderedSet α) : set.toList.Nodup :=
  set.sorted.imp ne_of_lt

variable {left right : OrderedSet α}

/- Ordered sets are determined by their members. -/
theorem ext_of_mem
    (hMem : ∀ item, item ∈ left ↔ item ∈ right) :
    left = right := by
  have hPerm : left.toList.Perm right.toList :=
    (List.perm_ext_iff_of_nodup left.nodup right.nodup).mpr hMem
  have hList : left.toList = right.toList :=
    hPerm.eq_of_pairwise
      (fun a b _ _ hab hba => absurd hab (lt_asymm hba))
      left.sorted right.sorted
  cases left
  cases right
  simpa using hList

/- Inserting a member changes nothing. -/
theorem insert_of_mem
    {set : OrderedSet α}
    (hMem : item ∈ set) :
    set.insert item = set := by
  apply ext_of_mem
  intro other
  rw [mem_insert]
  constructor
  · rintro (rfl | hOther)
    · exact hMem
    · exact hOther
  · exact Or.inr

theorem toList_eq_of_mem
    (hMem : ∀ item, item ∈ left ↔ item ∈ right) :
    left.toList = right.toList := by
  rw [ext_of_mem hMem]

theorem length_le_of_subset
    (hSub : ∀ item, item ∈ left → item ∈ right) :
    left.length ≤ right.length :=
  (left.nodup.subperm hSub).length_le

/- A strictly smaller set has a strictly shorter list. -/
theorem length_lt_of_subset
    (hSub : ∀ item, item ∈ left → item ∈ right)
    (hIn : item ∈ right)
    (hOut : ¬ item ∈ left) :
    left.length < right.length := by
  have hSub' :
      ∀ other, other ∈ left.insert item → other ∈ right := by
    intro other hOther
    rcases mem_insert.mp hOther with rfl | hMem
    · exact hIn
    · exact hSub other hMem
  have hLe := length_le_of_subset hSub'
  have hNodup : (item :: left.toList).Nodup :=
    List.nodup_cons.mpr ⟨hOut, left.nodup⟩
  have hLonger :
      (item :: left.toList).length ≤
        (left.insert item).toList.length := by
    refine (hNodup.subperm ?_).length_le
    intro other hOther
    exact mem_insert.mpr (List.mem_cons.mp hOther)
  have hSucc : left.length + 1 ≤ (left.insert item).length :=
    hLonger
  omega

end OrderedSet

end ArktsServer
