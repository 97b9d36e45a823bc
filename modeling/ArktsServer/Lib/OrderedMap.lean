import Mathlib.Data.List.Basic
import Mathlib.Data.List.Pairwise

/-
  Finite maps that keep the order of insertion, as the maps
  of JavaScript do: a list of entries together with the proof
  that no key has two of them.

  Main declarations:
    * `OrderedMap`
    * `OrderedMap.get`, `OrderedMap.set`, `OrderedMap.delete`
    * `OrderedMap.get_eq_some_iff`
    * `OrderedMap.get_set`, `OrderedMap.get_delete`
-/

----------
-- Ordered Maps
----------

namespace ArktsServer

/- The entries of a map, in the order of their insertion. -/
structure OrderedMap (Key Value : Type) where
  entries : List (Key × Value)
  distinct :
    entries.Pairwise fun left right => left.1 ≠ right.1

namespace OrderedMap

variable {Key Value : Type}

/- The map without entries. -/
def empty : OrderedMap Key Value :=
  ⟨[], List.Pairwise.nil⟩

/- The entries that satisfy a test. -/
def filter
    (map : OrderedMap Key Value)
    (keep : Key × Value → Bool) :
    OrderedMap Key Value :=
  ⟨map.entries.filter keep, map.distinct.filter keep⟩

def keys (map : OrderedMap Key Value) : List Key :=
  map.entries.map Prod.fst

def values (map : OrderedMap Key Value) : List Value :=
  map.entries.map Prod.snd

@[simp] theorem keys_empty :
    (empty : OrderedMap Key Value).keys = [] :=
  rfl

variable [DecidableEq Key]

def get
    (map : OrderedMap Key Value)
    (key : Key) : Option Value :=
  (map.entries.find? (fun entry => entry.1 = key)).map
    Prod.snd

/- Remove an entry. -/
def delete
    (map : OrderedMap Key Value)
    (key : Key) : OrderedMap Key Value :=
  map.filter fun entry => entry.1 ≠ key

/- Change the value of an entry, or append a new one. -/
def setEntries
    (entries : List (Key × Value))
    (key : Key)
    (value : Value) : List (Key × Value) :=
  if entries.any (fun entry => entry.1 = key) then
    entries.map fun entry =>
      if entry.1 = key then (key, value) else entry
  else entries ++ [(key, value)]

variable {key : Key}

theorem setEntries_distinct
    {entries : List (Key × Value)}
    {value : Value}
    (hDistinct :
      entries.Pairwise fun left right => left.1 ≠ right.1) :
    (setEntries entries key value).Pairwise
      fun left right => left.1 ≠ right.1 := by
  have hKey :
      ∀ entry : Key × Value,
        (if entry.1 = key then (key, value) else entry).1
          = entry.1 := by
    intro entry
    split
    · rename_i hEntry
      exact hEntry.symm
    · rfl
  unfold setEntries
  split
  · rw [List.pairwise_map]
    refine hDistinct.imp ?_
    intro left right hNe
    rw [hKey, hKey]
    exact hNe
  · rename_i hAbsent
    refine
      List.pairwise_append.mpr
        ⟨hDistinct, List.pairwise_singleton _ _, ?_⟩
    intro left hLeft right hRight hSame
    rw [List.mem_singleton] at hRight
    subst hRight
    exact
      hAbsent
        (List.any_eq_true.mpr ⟨left, hLeft, by simpa using hSame⟩)

def set
    (map : OrderedMap Key Value)
    (key : Key)
    (value : Value) : OrderedMap Key Value :=
  ⟨setEntries map.entries key value,
    setEntries_distinct map.distinct⟩

@[simp] theorem get_empty
    (key : Key) :
    (empty : OrderedMap Key Value).get key = none :=
  rfl

variable {map : OrderedMap Key Value}

/- A key has a value exactly when the entry is there. -/
theorem get_eq_some_iff
    {value : Value} :
    map.get key = some value ↔ (key, value) ∈ map.entries := by
  obtain ⟨entries, hDistinct⟩ := map
  unfold get
  induction entries with
  | nil => simp
  | cons head tail ih =>
    rcases List.pairwise_cons.mp hDistinct with
      ⟨hHead, hTail⟩
    by_cases hKey : head.1 = key
    · rw [List.find?_cons_of_pos (by simpa using hKey)]
      constructor
      · intro hValue
        have hEntry : head.2 = value := by
          simpa using hValue
        rw [← hKey, ← hEntry]
        exact List.mem_cons_self
      · intro hMem
        rcases List.mem_cons.mp hMem with rfl | hMem
        · rfl
        · exact absurd hKey (hHead _ hMem)
    · rw [List.find?_cons_of_neg (by simpa using hKey),
        ih hTail, List.mem_cons]
      constructor
      · exact Or.inr
      · rintro (rfl | hMem)
        · exact absurd rfl hKey
        · exact hMem

theorem get_eq_none_iff
    {key : Key} :
    map.get key = none ↔ key ∉ map.keys := by
  unfold get keys
  rw [Option.map_eq_none_iff, List.find?_eq_none]
  constructor
  · intro hNone hKey
    rcases List.mem_map.mp hKey with ⟨entry, hEntry, hSame⟩
    exact hNone entry hEntry (by simpa using hSame)
  · intro hKey entry hEntry hSame
    rw [decide_eq_true_eq] at hSame
    exact hKey (List.mem_map.mpr ⟨entry, hEntry, hSame⟩)

theorem mem_keys_iff
    {key : Key} :
    key ∈ map.keys ↔ ∃ value, map.get key = some value := by
  rw [← not_iff_not, ← get_eq_none_iff,
    Option.eq_none_iff_forall_not_mem]
  simp

theorem get_filter
    {keep : Key × Value → Bool}
    {value : Value} :
    (map.filter keep).get key = some value ↔
      map.get key = some value ∧ keep (key, value) = true := by
  rw [get_eq_some_iff, get_eq_some_iff]
  exact List.mem_filter

@[simp] theorem get_delete
    (map : OrderedMap Key Value)
    (key other : Key) :
    (map.delete key).get other =
      if other = key then none else map.get other := by
  apply Option.ext
  intro value
  unfold delete
  rw [get_filter]
  by_cases hKey : other = key
  · simp [hKey]
  · simp [hKey]

@[simp] theorem get_set
    (map : OrderedMap Key Value)
    (key other : Key)
    (value : Value) :
    (map.set key value).get other =
      if other = key then some value else map.get other := by
  apply Option.ext
  intro found
  rw [get_eq_some_iff]
  unfold set setEntries
  split
  · rename_i hPresent
    rcases List.any_eq_true.mp hPresent with
      ⟨entry, hEntry, hKey⟩
    rw [decide_eq_true_eq] at hKey
    by_cases hOther : other = key
    · rw [if_pos hOther]
      simp only [List.mem_map, Option.some.injEq]
      constructor
      · rintro ⟨origin, _, hOrigin⟩
        split at hOrigin
        · exact congrArg Prod.snd hOrigin
        · rename_i hNe
          exact absurd (by rw [hOrigin, hOther]) hNe
      · rintro rfl
        exact ⟨entry, hEntry, by rw [if_pos hKey, hOther]⟩
    · rw [if_neg hOther, get_eq_some_iff]
      simp only [List.mem_map]
      constructor
      · rintro ⟨origin, hMem, hOrigin⟩
        split at hOrigin
        · exact absurd (congrArg Prod.fst hOrigin).symm hOther
        · exact hOrigin ▸ hMem
      · intro hMem
        exact ⟨_, hMem, if_neg hOther⟩
  · rename_i hAbsent
    rw [List.mem_append, List.mem_singleton]
    by_cases hOther : other = key
    · rw [if_pos hOther]
      constructor
      · rintro (hMem | hNew)
        · refine absurd (List.any_eq_true.mpr ?_) hAbsent
          exact ⟨_, hMem, by simpa using hOther⟩
        · exact congrArg (some ·.2) hNew.symm
      · intro hFound
        right
        rw [hOther, Option.some.inj hFound]
    · rw [if_neg hOther, get_eq_some_iff]
      constructor
      · rintro (hMem | hNew)
        · exact hMem
        · exact absurd (congrArg Prod.fst hNew) hOther
      · exact Or.inl

/- A map is one of its entries and the others. -/
theorem perm_delete
    {value : Value}
    (hValue : map.get key = some value) :
    map.entries.Perm
      ((key, value) :: (map.delete key).entries) := by
  rw [get_eq_some_iff] at hValue
  obtain ⟨entries, hDistinct⟩ := map
  change
    entries.Perm
      ((key, value) :: entries.filter fun entry => entry.1 ≠ key)
  induction entries with
  | nil => cases hValue
  | cons head tail ih =>
    rcases List.pairwise_cons.mp hDistinct with
      ⟨hHead, hTail⟩
    rcases List.mem_cons.mp hValue with rfl | hMem
    · have hRest :
          tail.filter (fun entry => entry.1 ≠ key) = tail := by
        refine List.filter_eq_self.mpr ?_
        intro entry hEntry
        exact decide_eq_true (hHead entry hEntry).symm
      rw [List.filter_cons_of_neg (by simp), hRest]
    · have hKey : head.1 ≠ key := hHead _ hMem
      rw [List.filter_cons_of_pos (by simpa using hKey)]
      exact ((ih hTail hMem).cons head).trans (List.Perm.swap _ _ _)

/- Without its first entry, a map is the rest. -/
theorem entries_delete_head
    {head : Key × Value}
    {rest : List (Key × Value)}
    (hEntries : map.entries = head :: rest) :
    (map.delete head.1).entries = rest := by
  have hDistinct := map.distinct
  rw [hEntries] at hDistinct
  change map.entries.filter _ = rest
  rw [hEntries, List.filter_cons_of_neg (by simp)]
  refine List.filter_eq_self.mpr ?_
  intro entry hEntry
  exact
    decide_eq_true
      ((List.pairwise_cons.mp hDistinct).1 entry hEntry).symm

/- The entries of a key. -/
theorem filter_key
    (map : OrderedMap Key Value)
    (key : Key) :
    map.entries.filter (fun entry => decide (entry.1 = key)) =
      ((map.get key).map fun value => (key, value)).toList := by
  cases hGet : map.get key with
  | none =>
    rw [Option.map_none, Option.toList_none,
      List.filter_eq_nil_iff]
    intro entry hEntry hKey
    have hNot := get_eq_none_iff.mp hGet
    refine hNot ?_
    rw [← of_decide_eq_true hKey]
    exact List.mem_map_of_mem hEntry
  | some value =>
    have hPerm :=
      (perm_delete hGet).filter fun entry =>
        decide (entry.1 = key)
    have hNone :
        (map.delete key).entries.filter
            (fun entry => decide (entry.1 = key)) = [] := by
      rw [List.filter_eq_nil_iff]
      intro entry hEntry hKey
      have hKept := (List.mem_filter.mp hEntry).2
      rw [of_decide_eq_true hKey] at hKept
      simp at hKept
    rw [List.filter_cons_of_pos (by simp), hNone] at hPerm
    exact List.perm_singleton.mp hPerm

theorem keys_delete
    (map : OrderedMap Key Value)
    (key : Key) :
    (map.delete key).keys = map.keys.filter (· ≠ key) := by
  unfold delete filter keys
  rw [List.filter_map]
  rfl

/- A key that is there keeps its place. -/
theorem keys_set_of_some
    {old : Value}
    (hOld : map.get key = some old)
    (value : Value) :
    (map.set key value).keys = map.keys := by
  have hAny :
      map.entries.any (fun entry => entry.1 = key) = true :=
    List.any_eq_true.mpr
      ⟨(key, old), get_eq_some_iff.mp hOld, by simp⟩
  change (setEntries map.entries key value).map Prod.fst = _
  unfold setEntries keys
  rw [if_pos hAny, List.map_map]
  refine List.map_congr_left fun entry _ => ?_
  by_cases hKey : entry.1 = key
  · simp [hKey]
  · simp [hKey]

/- An entry that is there changes its value. -/
theorem entries_set_of_some
    {old : Value}
    (hOld : map.get key = some old)
    (value : Value) :
    (map.set key value).entries =
      map.entries.map fun entry =>
        if entry.1 = key then (key, value) else entry := by
  have hAny :
      map.entries.any (fun entry => entry.1 = key) = true := by
    refine
      List.any_eq_true.mpr
        ⟨(key, old), get_eq_some_iff.mp hOld, ?_⟩
    simp
  change setEntries map.entries key value = _
  unfold setEntries
  rw [if_pos hAny]

/- A new entry comes last. -/
theorem entries_set_of_none
    (hNone : map.get key = none)
    (value : Value) :
    (map.set key value).entries =
      map.entries ++ [(key, value)] := by
  have hAny :
      ¬ map.entries.any (fun entry => entry.1 = key)
        = true := by
    intro hAny
    rcases List.any_eq_true.mp hAny with
      ⟨entry, hEntry, hKey⟩
    exact
      get_eq_none_iff.mp hNone
        (List.mem_map.mpr ⟨entry, hEntry, by simpa using hKey⟩)
  change setEntries map.entries key value = _
  unfold setEntries
  rw [if_neg hAny]

/- A new key comes last. -/
theorem keys_set_of_none
    (hNone : map.get key = none)
    (value : Value) :
    (map.set key value).keys = map.keys ++ [key] := by
  unfold keys
  rw [entries_set_of_none hNone, List.map_append]
  rfl

end OrderedMap

end ArktsServer
