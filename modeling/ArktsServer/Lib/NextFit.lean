import Mathlib.Data.List.Forall2
import Mathlib.Order.Lattice

/-
  Packing items with sizes into groups in their order.  A
  group is closed before an item that does not fit and as
  soon as it is full.  A group closes without a trace, so a
  suffix of the groups is the packing of its own items; and
  fewer or smaller items never need more groups.

  Main declarations:
    * `NextFit.load`, `NextFit.packFrom`
    * `NextFit.packFrom_flatten`
    * `NextFit.packFrom_fits`
    * `NextFit.packFrom_suffix`
    * `NextFit.groups`, `NextFit.groups_mono`
-/

namespace ArktsServer

namespace NextFit

----------
-- Packing
----------

section Packing

variable {α : Type} (limit : Nat) (size : α → Nat)

def load (size : α → Nat) : List α → Nat
| [] => 0
| item :: items => size item + load size items

theorem load_append
    {size : α → Nat}
    (first second : List α) :
    load size (first ++ second) =
      load size first + load size second := by
  induction first with
  | nil => exact (Nat.zero_add _).symm
  | cons item items ih =>
    rw [List.cons_append, load, load, ih, Nat.add_assoc]

/- The groups of some items behind an open group. -/
def packFrom (opened : List α) : List α → List (List α)
| [] => if opened.isEmpty then [] else [opened]
| item :: items =>
    if ¬ opened.isEmpty
        ∧ limit < load size opened + size item then
      if limit ≤ size item then
        opened :: [item] :: packFrom [] items
      else
        opened :: packFrom [item] items
    else if limit ≤ load size opened + size item then
      (opened ++ [item]) :: packFrom [] items
    else
      packFrom (opened ++ [item]) items

variable {limit : Nat} {size : α → Nat}

/- No item is lost, repeated or moved. -/
theorem packFrom_flatten
    (opened items : List α) :
    (packFrom limit size opened items).flatten =
      opened ++ items := by
  induction items generalizing opened with
  | nil =>
    unfold packFrom
    cases opened with
    | nil => rfl
    | cons first opened => simp
  | cons item items ih =>
    unfold packFrom
    split
    · split
      · rw [List.flatten_cons, List.flatten_cons, ih]
        rfl
      · rw [List.flatten_cons, ih]
        rfl
    · split
      · rw [List.flatten_cons, ih, List.append_assoc]
        rfl
      · rw [ih, List.append_assoc]
        rfl

/- A group that is in the limit, or a single item. -/
def Fits
    (limit : Nat)
    (size : α → Nat)
    (group : List α) : Prop :=
  group ≠ [] ∧
    (load size group ≤ limit ∨ group.length = 1)

theorem fits_single (item : α) :
    Fits limit size [item] :=
  ⟨List.cons_ne_nil _ _, Or.inr rfl⟩

/- Every group fits when the open one does. -/
theorem packFrom_fits
    {opened items : List α}
    (hOpened : opened = [] ∨ Fits limit size opened) :
    ∀ group ∈ packFrom limit size opened items,
      Fits limit size group := by
  have hNonempty : ∀ opened : List α,
      ¬ opened.isEmpty = true →
        opened = [] ∨ Fits limit size opened →
          Fits limit size opened := by
    intro opened hSome hFits
    rcases hFits with rfl | hFits
    · exact absurd rfl hSome
    · exact hFits
  induction items generalizing opened with
  | nil =>
    intro group hGroup
    unfold packFrom at hGroup
    split at hGroup
    · cases hGroup
    · rename_i hSome
      rw [List.mem_singleton.mp hGroup]
      exact hNonempty opened hSome hOpened
  | cons item items ih =>
    unfold packFrom
    split
    · rename_i hOver
      have hFirst := hNonempty opened hOver.1 hOpened
      split
      · refine
          List.forall_mem_cons.mpr
            ⟨hFirst, List.forall_mem_cons.mpr
              ⟨fits_single item, ?_⟩⟩
        exact ih (Or.inl rfl)
      · refine List.forall_mem_cons.mpr ⟨hFirst, ?_⟩
        exact ih (Or.inr (fits_single item))
    · rename_i hRoom
      have hGrown :
          Fits limit size (opened ++ [item]) := by
        refine ⟨by simp, ?_⟩
        rw [load_append]
        cases opened with
        | nil => exact Or.inr rfl
        | cons first opened =>
          left
          have hSize : load size [item] = size item :=
            Nat.add_zero _
          rw [hSize]
          exact
            Nat.not_lt.mp fun hOver =>
              hRoom ⟨Bool.false_ne_true, hOver⟩
      split
      · refine List.forall_mem_cons.mpr ⟨hGrown, ?_⟩
        exact ih (Or.inl rfl)
      · exact ih (Or.inr hGrown)

/- What follows a group is packed on its own. -/
theorem packFrom_tail
    {opened items group : List α}
    {groups : List (List α)}
    (hPacked :
      packFrom limit size opened items = group :: groups) :
    packFrom limit size [] groups.flatten = groups := by
  induction items generalizing opened with
  | nil =>
    unfold packFrom at hPacked
    split at hPacked
    · cases hPacked
    · injection hPacked with _ hNone
      rw [← hNone]
      rfl
  | cons item items ih =>
    unfold packFrom at hPacked
    split at hPacked
    · split at hPacked
      · rename_i hLarge
        injection hPacked with _ hRest
        rw [← hRest, List.flatten_cons, packFrom_flatten,
          List.nil_append, List.singleton_append]
        have hFull : limit ≤ load size [] + size item := by
          rw [load, Nat.zero_add]
          exact hLarge
        rw [packFrom, if_neg (fun hOver => hOver.1 rfl),
          if_pos hFull]
        rfl
      · rename_i hSmall
        injection hPacked with _ hRest
        rw [← hRest, packFrom_flatten, List.singleton_append]
        have hOpen :
            ¬ limit ≤ load size [] + size item := by
          rw [load, Nat.zero_add]
          exact hSmall
        rw [packFrom, if_neg (fun hOver => hOver.1 rfl),
          if_neg hOpen]
        rfl
    · split at hPacked
      · injection hPacked with _ hRest
        rw [← hRest, packFrom_flatten]
        rfl
      · exact ih hPacked

theorem packFrom_suffix
    (items : List α)
    (count : Nat) :
    packFrom limit size []
        ((packFrom limit size [] items).drop count).flatten =
      (packFrom limit size [] items).drop count := by
  induction count with
  | zero =>
    rw [List.drop_zero, packFrom_flatten]
    rfl
  | succ count ih =>
    rw [← List.drop_drop]
    cases hGroups : (packFrom limit size [] items).drop count with
    | nil => rfl
    | cons group groups =>
      rw [hGroups] at ih
      exact packFrom_tail ih

end Packing

----------
-- Counting
----------

variable {limit : Nat}

/- What an item closes, and the level it leaves. -/
def closes (limit level size : Nat) : Nat × Nat :=
  if 0 < level ∧ limit < level + size then
    if limit ≤ size then (2, 0) else (1, size)
  else if limit ≤ level + size then
    (1, 0)
  else
    (0, level + size)

def groups (limit level : Nat) : List Nat → Nat
| [] => if level = 0 then 0 else 1
| size :: sizes =>
    (closes limit level size).1
      + groups limit (closes limit level size).2 sizes

theorem groups_cons
    (level size : Nat)
    (sizes : List Nat) :
    groups limit level (size :: sizes) =
      (closes limit level size).1
        + groups limit (closes limit level size).2 sizes :=
  rfl

theorem closes_level
    (hLimit : 0 < limit)
    (level size : Nat) :
    (closes limit level size).2 < limit := by
  unfold closes
  split <;> split <;> simp only <;> omega

/- In the lexicographic order, more closes more. -/
theorem closes_mono
    {level more size larger : Nat}
    (hLevel : level ≤ more)
    (hSize : size ≤ larger) :
    (closes limit level size).1 < (closes limit more larger).1
      ∨ ((closes limit level size).1
            = (closes limit more larger).1
          ∧ (closes limit level size).2
            ≤ (closes limit more larger).2) := by
  unfold closes
  split <;> split <;> split <;> split <;> simp <;> omega

/- A whole group outweighs any level. -/
theorem closes_succ
    {level more size larger : Nat}
    (hSize : size ≤ larger) :
    (closes limit level size).1
        < (closes limit more larger).1 + 1
      ∨ ((closes limit level size).1
            = (closes limit more larger).1 + 1
          ∧ (closes limit level size).2
            ≤ (closes limit more larger).2) := by
  unfold closes
  split <;> split <;> split <;> split <;> simp <;> omega

theorem closes_none
    (level : Nat)
    (hLevel : level < limit) :
    closes limit level 0 = (0, level) := by
  unfold closes
  rw [if_neg (fun hOver => by omega), if_neg (by omega)]
  rfl

/-
  Fewer and smaller items on a lower level, or on any level
  with one group more, close no more groups.
-/
theorem groups_bounds
    (hLimit : 0 < limit)
    {sizes others : List Nat}
    (hShrunk : List.SublistForall₂ (· ≤ ·) sizes others) :
    ∀ level more, level < limit → more < limit →
      (level ≤ more →
          groups limit level sizes
            ≤ groups limit more others) ∧
        groups limit level sizes
          ≤ groups limit more others + 1 := by
  induction hShrunk with
  | @nil others =>
    intro level more hLevel hMore
    have hEnd : ∀ others more, more < limit →
        (level ≤ more →
            groups limit level [] ≤ groups limit more others) ∧
          groups limit level []
            ≤ groups limit more others + 1 := by
      intro others
      induction others with
      | nil =>
        intro more _
        unfold groups
        split <;> split <;> omega
      | cons size others ih =>
        intro more hMore
        have hNext := ih _ (closes_level hLimit more size)
        have hLess := @closes_mono limit more more 0 size
          (Nat.le_refl _) (Nat.zero_le _)
        rw [closes_none more hMore] at hLess
        rw [groups_cons]
        simp only at hLess
        refine ⟨fun hLe => ?_, by omega⟩
        rcases hLess with hLess | ⟨hSame, hBelow⟩
        · omega
        · rw [← hSame, Nat.zero_add]
          exact hNext.1 (Nat.le_trans hLe hBelow)
    exact hEnd others more hMore
  | @cons size larger sizes others hSize _ ih =>
    intro level more hLevel hMore
    have hNext :=
      ih _ _ (closes_level hLimit level size)
        (closes_level hLimit more larger)
    rw [groups_cons, groups_cons]
    refine ⟨fun hLe => ?_, ?_⟩
    · rcases @closes_mono limit _ _ _ _ hLe hSize with
        hLess | ⟨hSame, hBelow⟩
      · omega
      · have hRest := hNext.1 hBelow
        omega
    · rcases @closes_succ limit level more _ _ hSize with
        hLess | ⟨hSame, hBelow⟩
      · omega
      · have hRest := hNext.1 hBelow
        omega
  | @cons_right larger sizes others _ ih =>
    intro level more hLevel hMore
    have hNext :=
      ih level _ hLevel (closes_level hLimit more larger)
    have hLess := @closes_mono limit more more 0 larger
      (Nat.le_refl _) (Nat.zero_le _)
    rw [closes_none more hMore] at hLess
    simp only at hLess
    rw [groups_cons]
    refine ⟨fun hLe => ?_, by omega⟩
    rcases hLess with hLess | ⟨hSame, hBelow⟩
    · omega
    · have hRest := hNext.1 (Nat.le_trans hLe hBelow)
      omega

theorem groups_mono
    (hLimit : 0 < limit)
    {sizes others : List Nat}
    (hShrunk : List.SublistForall₂ (· ≤ ·) sizes others) :
    groups limit 0 sizes ≤ groups limit 0 others :=
  (groups_bounds hLimit hShrunk 0 0 hLimit hLimit).1
    (Nat.le_refl _)

/- The groups of items are counted by their sizes. -/
theorem length_packFrom
    {α : Type}
    {size : α → Nat}
    {opened items : List α}
    (hOpened : opened = [] ↔ load size opened = 0)
    (hSizes : ∀ item ∈ items, 0 < size item) :
    (packFrom limit size opened items).length =
      groups limit (load size opened) (items.map size) := by
  induction items generalizing opened with
  | nil =>
    unfold packFrom
    rw [List.map_nil, groups]
    cases opened with
    | nil => rfl
    | cons first opened =>
      have hLoad : load size (first :: opened) ≠ 0 :=
        fun hNone =>
          List.cons_ne_nil _ _ (hOpened.mpr hNone)
      rw [if_neg hLoad]
      rfl
  | cons item items ih =>
    rw [List.forall_mem_cons] at hSizes
    have hSome :
        ¬ opened.isEmpty = true ↔
          0 < load size opened := by
      rw [List.isEmpty_iff, hOpened]
      omega
    have hSingle : load size [item] = size item := Nat.add_zero _
    have hAlone :
        [item] = ([] : List α) ↔ load size [item] = 0 := by
      rw [hSingle]
      exact
        ⟨fun hNil => absurd hNil (List.cons_ne_nil _ _),
          fun hZero =>
            absurd hZero (Nat.ne_of_gt hSizes.1)⟩
    have hGrown :
        opened ++ [item] = [] ↔
          load size (opened ++ [item]) = 0 := by
      rw [load_append, hSingle]
      refine ⟨fun hNil => by simp at hNil, fun hZero => ?_⟩
      exact absurd hSizes.1 (by omega)
    have hNone :
        ([] : List α) = [] ↔ load size ([] : List α) = 0 :=
      ⟨fun _ => rfl, fun _ => rfl⟩
    rw [List.map_cons, packFrom, groups_cons]
    unfold closes
    simp only [hSome]
    split
    · split
      · rw [List.length_cons, List.length_cons,
          ih hNone hSizes.2]
        simp only [load]
        omega
      · rw [List.length_cons, ih hAlone hSizes.2, hSingle,
          Nat.add_comm]
    · split
      · rw [List.length_cons, ih hNone hSizes.2, Nat.add_comm]
        rfl
      · rw [ih hGrown hSizes.2, load_append, hSingle,
          Nat.zero_add]

end NextFit

end ArktsServer
