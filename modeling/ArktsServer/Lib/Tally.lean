import Mathlib.Data.List.Nodup
import Mathlib.Data.List.Count
import Mathlib.Data.List.Perm.Basic

/-
  Counts of the keys of a list, kept in an association list
  in which a key without items has no entry, and the total
  weight of a list.

  Main declarations:
    * `Tally.set`, `Tally.delete`
    * `Tally.Tallies`
    * `Tally.Tallies.add`, `Tally.Tallies.remove`
    * `Tally.total`, `Tally.total_perm`
-/

namespace ArktsServer

namespace Tally

section Entries

variable {κ β : Type} [DecidableEq κ]

/- An association list with one entry for a key. -/
def set
    (key : κ)
    (value : β)
    (entries : List (κ × β)) :
    List (κ × β) :=
  (key, value) :: entries.filter (fun entry => entry.1 ≠ key)

def delete
    (key : κ)
    (entries : List (κ × β)) :
    List (κ × β) :=
  entries.filter (fun entry => entry.1 ≠ key)

variable [BEq κ] [LawfulBEq κ]

/- A deletion is seen at its own key only. -/
theorem lookup_delete
    (key other : κ)
    (entries : List (κ × β)) :
    (delete key entries).lookup other =
      if other = key then none else entries.lookup other := by
  induction entries with
  | nil => exact (ite_self _).symm
  | cons entry entries ih =>
    rcases entry with ⟨found, value⟩
    unfold delete at ih ⊢
    by_cases hFound : found = key
    · rw [List.filter_cons_of_neg (by simp [hFound]), ih]
      split
      · rfl
      · rename_i hOther
        have hNe : (other == found) = false := by
          rw [hFound]
          exact beq_eq_false_iff_ne.mpr hOther
        rw [List.lookup_cons, hNe]
    · rw [List.filter_cons_of_pos (by simp [hFound]),
        List.lookup_cons, List.lookup_cons, ih]
      by_cases hSame : other = found
      · subst hSame
        rw [beq_self_eq_true, if_neg hFound]
        exact (if_neg hFound).symm
      · rw [beq_eq_false_iff_ne.mpr hSame]

theorem lookup_set
    (key other : κ)
    (value : β)
    (entries : List (κ × β)) :
    (set key value entries).lookup other =
      if other = key then
        some value
      else
        entries.lookup other := by
  have hDelete := lookup_delete key other entries
  unfold set
  rw [List.lookup_cons]
  by_cases hSame : other = key
  · subst hSame
    rw [beq_self_eq_true, if_pos rfl]
  · rw [beq_eq_false_iff_ne.mpr hSame, if_neg hSame]
    rw [if_neg hSame] at hDelete
    exact hDelete

variable {key : κ}
variable {entries : List (κ × β)}

omit [BEq κ] [LawfulBEq κ] in
theorem distinct_delete
    (hDistinct : (entries.map Prod.fst).Nodup) :
    ((delete key entries).map Prod.fst).Nodup :=
  hDistinct.sublist (List.filter_sublist.map Prod.fst)

/- A key keeps one entry. -/
omit [BEq κ] [LawfulBEq κ] in
theorem distinct_set
    {value : β}
    (hDistinct : (entries.map Prod.fst).Nodup) :
    ((set key value entries).map Prod.fst).Nodup := by
  unfold set
  rw [List.map_cons]
  refine List.nodup_cons.mpr ⟨?_, distinct_delete hDistinct⟩
  intro hMem
  rcases List.mem_map.mp hMem with ⟨entry, hEntry, hKey⟩
  have hOther := (List.mem_filter.mp hEntry).2
  exact (of_decide_eq_true hOther) hKey

/- A present key is deleted once. -/
theorem length_delete
    (hDistinct : (entries.map Prod.fst).Nodup) :
    (delete key entries).length
        + (if (entries.lookup key).isSome then 1 else 0) =
      entries.length := by
  induction entries with
  | nil => rfl
  | cons entry entries ih =>
    rcases entry with ⟨found, value⟩
    rw [List.map_cons, List.nodup_cons] at hDistinct
    have hRest := ih hDistinct.2
    unfold delete at hRest ⊢
    rw [List.lookup_cons, List.length_cons]
    by_cases hFound : found = key
    · subst hFound
      have hNone : entries.lookup found = none := by
        rw [List.lookup_eq_none_iff]
        intro entry hEntry
        have hOther : found ≠ entry.1 := fun hSame =>
          hDistinct.1
            (List.mem_map.mpr ⟨entry, hEntry, hSame.symm⟩)
        exact bne_iff_ne.mpr hOther
      rw [hNone] at hRest
      rw [List.filter_cons_of_neg (by simp), beq_self_eq_true]
      simp only [Option.isSome_none, Bool.false_eq_true,
        ↓reduceIte, Nat.add_zero] at hRest
      simp only [Option.isSome_some, ↓reduceIte]
      omega
    · rw [List.filter_cons_of_pos (by simp [hFound]),
        beq_eq_false_iff_ne.mpr (Ne.symm hFound),
        List.length_cons]
      simp only
      omega

end Entries

section Tallies

variable {α κ : Type} [DecidableEq κ] [BEq κ]
variable {keyOf : α → κ}
variable {items : List α} {entries : List (κ × Nat)}

/- How many items have a key. -/
def tally (keyOf : α → κ) (items : List α) (key : κ) : Nat :=
  items.countP fun item => keyOf item = key

/- Each key with items has their number as its entry. -/
structure Tallies
    (keyOf : α → κ)
    (items : List α)
    (entries : List (κ × Nat)) : Prop where
  distinct : (entries.map Prod.fst).Nodup
  count :
    ∀ key,
      entries.lookup key =
        if tally keyOf items key = 0 then
          none
        else
          some (tally keyOf items key)

theorem tallies_nil : Tallies keyOf ([] : List α) [] :=
  ⟨List.nodup_nil, fun _ => rfl⟩

/- A key without an entry counts as zero. -/
theorem Tallies.getD
    (hTallies : Tallies keyOf items entries)
    (key : κ) :
    (entries.lookup key).getD 0 = tally keyOf items key := by
  rw [hTallies.count]
  split
  · rename_i hNone
    exact hNone.symm
  · rfl

variable [LawfulBEq κ]

/- One more item counts at its key. -/
theorem Tallies.add
    (hTallies : Tallies keyOf items entries)
    (item : α) :
    Tallies keyOf (items ++ [item])
      (set (keyOf item)
        ((entries.lookup (keyOf item)).getD 0 + 1)
        entries) := by
  refine ⟨distinct_set hTallies.distinct, fun key => ?_⟩
  have hTally :
      tally keyOf (items ++ [item]) key =
        tally keyOf items key
          + (if keyOf item = key then 1 else 0) := by
    unfold tally
    rw [List.countP_append, List.countP_singleton]
    by_cases hSame : keyOf item = key <;> simp [hSame]
  rw [lookup_set, hTallies.getD, hTally, hTallies.count]
  by_cases hSame : key = keyOf item
  · subst hSame
    rw [if_pos rfl, if_pos rfl, if_neg (Nat.succ_ne_zero _)]
  · rw [if_neg hSame, if_neg (Ne.symm hSame), Nat.add_zero]

/- The last item of a key takes the entry with it. -/
theorem Tallies.remove
    {item : α}
    {rest : List α}
    (hTallies : Tallies keyOf items entries)
    (hItems : (item :: rest).Perm items) :
    Tallies keyOf rest
      (if (entries.lookup (keyOf item)).getD 0 - 1 = 0 then
        delete (keyOf item) entries
      else
        set (keyOf item)
          ((entries.lookup (keyOf item)).getD 0 - 1)
          entries) := by
  have hTally :
      ∀ key,
        tally keyOf items key =
          tally keyOf rest key
            + (if keyOf item = key then 1 else 0) := by
    intro key
    unfold tally
    rw [← hItems.countP_eq, List.countP_cons]
    by_cases hSame : keyOf item = key <;> simp [hSame]
  have hItem := hTally (keyOf item)
  rw [if_pos rfl] at hItem
  rw [hTallies.getD, hItem, Nat.add_sub_cancel]
  split
  · rename_i hLast
    refine ⟨distinct_delete hTallies.distinct, fun key => ?_⟩
    rw [lookup_delete, hTallies.count, hTally key]
    by_cases hSame : key = keyOf item
    · subst hSame
      rw [if_pos rfl, if_pos hLast]
    · rw [if_neg hSame, if_neg (Ne.symm hSame), Nat.add_zero]
  · rename_i hMore
    refine ⟨distinct_set hTallies.distinct, fun key => ?_⟩
    rw [lookup_set, hTallies.count, hTally key]
    by_cases hSame : key = keyOf item
    · subst hSame
      rw [if_pos rfl, if_neg hMore]
    · rw [if_neg hSame, if_neg (Ne.symm hSame), Nat.add_zero]

/- A key that is new takes one more entry. -/
theorem Tallies.length_set
    (hTallies : Tallies keyOf items entries)
    (key : κ)
    (count : Nat) :
    (set key count entries).length =
      entries.length
        + (if tally keyOf items key = 0 then 1 else 0) := by
  have hLength := @length_delete _ _ _ _ _ key _ hTallies.distinct
  rw [hTallies.count] at hLength
  unfold delete at hLength
  unfold set
  rw [List.length_cons, ← hLength]
  by_cases hNone : tally keyOf items key = 0
  · simp [hNone]
  · simp [hNone]

omit [BEq κ] [LawfulBEq κ] in
theorem length_delete_le
    (key : κ)
    (entries : List (κ × Nat)) :
    (delete key entries).length ≤ entries.length :=
  List.length_filter_le _ _

end Tallies

section Totals

variable {α : Type} {weight : α → Nat}

/- The weights of a list, added up. -/
def total (weight : α → Nat) : List α → Nat
| [] => 0
| item :: items => weight item + total weight items

theorem total_append
    (first second : List α) :
    total weight (first ++ second) =
      total weight first + total weight second := by
  induction first with
  | nil => exact (Nat.zero_add _).symm
  | cons item items ih =>
    rw [List.cons_append, total, total, ih, Nat.add_assoc]

/- A total does not depend on the order. -/
theorem total_perm
    {first second : List α}
    (hPerm : first.Perm second) :
    total weight first = total weight second := by
  induction hPerm with
  | nil => rfl
  | cons item _ ih => rw [total, total, ih]
  | swap first second items =>
    rw [total, total, total, total, Nat.add_left_comm]
  | trans _ _ ihFirst ihSecond => rw [ihFirst, ihSecond]

end Totals

end Tally

end ArktsServer
