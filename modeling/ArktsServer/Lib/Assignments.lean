import Mathlib.Data.List.Basic
import Mathlib.Logic.Function.Basic
import Mathlib.Tactic.Common

/-
  Lists of writes to a state that gives every key a value.
  The last write of a key decides, so two lists are worth
  the same when their last writes are.  A list can be split
  into two phases by its values without a difference exactly
  when no key loses a late value to an early one.

  Main declarations:
    * `Assignments.assign`, `Assignments.lastWrite?`
    * `Assignments.phased`, `Assignments.LateLast`
    * `Assignments.assign_apply`
    * `Assignments.assign_phased_iff`
    * `Assignments.foldl_assign`, `Assignments.foldlM_assign`
-/

----------
-- Writes
----------

namespace ArktsServer

namespace Assignments

variable {Key Value : Type} [DecidableEq Key]

variable (state : Key → Value)

def assign
    (writes : List (Key × Value)) : Key → Value :=
  writes.foldl
    (fun state write =>
      Function.update state write.1 write.2)
    state

@[simp] theorem assign_nil (state : Key → Value) :
    assign state [] = state :=
  rfl

@[simp] theorem assign_cons
    (write : Key × Value)
    (writes : List (Key × Value)) :
    assign state (write :: writes) =
      assign (Function.update state write.1 write.2)
        writes :=
  rfl

theorem assign_append
    (first second : List (Key × Value)) :
    assign state (first ++ second) =
      assign (assign state first) second :=
  List.foldl_append

/- The value that the last write of a key gives it. -/
def lastWrite?
    (writes : List (Key × Value))
    (key : Key) : Option Value :=
  (writes.reverse.find? (·.1 = key)).map (·.2)

theorem lastWrite?_append
    (first second : List (Key × Value))
    (key : Key) :
    lastWrite? (first ++ second) key =
      (lastWrite? second key).or (lastWrite? first key) := by
  unfold lastWrite?
  rw [List.reverse_append, List.find?_append]
  cases second.reverse.find? (·.1 = key) <;> rfl

theorem lastWrite?_singleton
    (write : Key × Value)
    (key : Key) :
    lastWrite? [write] key =
      if write.1 = key then some write.2 else none := by
  by_cases hKey : write.1 = key
  · simp [lastWrite?, hKey]
  · simp [lastWrite?, hKey]

variable {writes : List (Key × Value)}

theorem lastWrite?_eq_none_iff
    {key : Key} :
    lastWrite? writes key = none ↔
      ∀ write ∈ writes, write.1 ≠ key := by
  simp [lastWrite?]

theorem mem_of_lastWrite?
    {key : Key}
    {value : Value}
    (hLast : lastWrite? writes key = some value) :
    (key, value) ∈ writes := by
  rcases Option.map_eq_some_iff.mp hLast with
    ⟨write, hFind, rfl⟩
  have hKey : write.1 = key := by
    simpa using List.find?_some hFind
  subst hKey
  exact List.mem_reverse.mp (List.mem_of_find?_eq_some hFind)

/- A key that is written has a last write. -/
theorem exists_lastWrite?
    {write : Key × Value}
    (hWrite : write ∈ writes) :
    ∃ value, lastWrite? writes write.1 = some value := by
  cases hLast : lastWrite? writes write.1 with
  | none =>
    exact
      absurd rfl (lastWrite?_eq_none_iff.mp hLast write hWrite)
  | some value => exact ⟨value, rfl⟩

/- The last write of a key decides its value. -/
theorem assign_apply
    (writes : List (Key × Value))
    (key : Key) :
    assign state writes key =
      (lastWrite? writes key).getD (state key) := by
  induction writes generalizing state with
  | nil => rfl
  | cons write writes ih =>
    have hLast :
        lastWrite? (write :: writes) key =
          (lastWrite? writes key).or (lastWrite? [write] key) :=
      lastWrite?_append [write] writes key
    rw [assign_cons, ih, hLast, lastWrite?_singleton]
    cases lastWrite? writes key with
    | some value => rfl
    | none =>
      by_cases hKey : write.1 = key
      · subst hKey
        simp
      · simp [hKey, Function.update_of_ne (Ne.symm hKey)]

theorem assign_congr
    {state : Key → Value}
    {left right : List (Key × Value)}
    (hLast :
      ∀ key, lastWrite? left key = lastWrite? right key) :
    assign state left = assign state right := by
  funext key
  rw [assign_apply, assign_apply, hLast key]

/- Writes of one value are told apart by their keys only. -/
theorem lastWrite?_constant
    {keys : List Key}
    {value : Value}
    {key : Key} :
    lastWrite? (keys.map (·, value)) key =
      if key ∈ keys then some value else none := by
  by_cases hMem : key ∈ keys
  · rw [if_pos hMem]
    have hWrite : (key, value) ∈ keys.map (·, value) :=
      List.mem_map.mpr ⟨key, hMem, rfl⟩
    rcases exists_lastWrite? hWrite with ⟨last, hLast⟩
    rcases List.mem_map.mp (mem_of_lastWrite? hLast) with
      ⟨other, _, hPair⟩
    rw [hLast, (Prod.mk.inj hPair).2]
  · rw [if_neg hMem]
    refine lastWrite?_eq_none_iff.mpr ?_
    intro write hWrite hKey
    rcases List.mem_map.mp hWrite with ⟨other, hOther, rfl⟩
    exact hMem (hKey ▸ hOther)

----------
-- Two Phases
----------

section Phases

variable (late : Value → Bool)

/- The writes of early values, and then those of late ones. -/
def phased
    (writes : List (Key × Value)) : List (Key × Value) :=
  writes.filter (fun write => !late write.2)
    ++ writes.filter (fun write => late write.2)

/- A key that is ever given a late value ends with one. -/
def LateLast (writes : List (Key × Value)) : Prop :=
  ∀ write ∈ writes, late write.2 = true →
    ∀ value, lastWrite? writes write.1 = some value →
      late value = true

variable {late}

/- A filter that keeps the last write keeps it last. -/
theorem lastWrite?_filter
    {keep : Value → Bool}
    {writes : List (Key × Value)}
    {key : Key}
    {value : Value}
    (hLast : lastWrite? writes key = some value)
    (hKeep : keep value = true) :
    lastWrite? (writes.filter fun write => keep write.2) key
      = some value := by
  induction writes with
  | nil => cases hLast
  | cons write writes ih =>
    have hSplit :
        lastWrite? (write :: writes) key =
          (lastWrite? writes key).or (lastWrite? [write] key) :=
      lastWrite?_append [write] writes key
    have hFilter :
        lastWrite?
            ((write :: writes).filter fun write =>
              keep write.2) key
          = (lastWrite?
              (writes.filter fun write => keep write.2)
              key).or
            (lastWrite?
              ([write].filter fun write => keep write.2)
              key) := by
      rw [← lastWrite?_append, ← List.filter_append]
      rfl
    rw [hSplit] at hLast
    rw [hFilter]
    cases hRest : lastWrite? writes key with
    | some last =>
      rw [hRest] at hLast
      rw [ih (hRest.trans hLast)]
      rfl
    | none =>
      rw [hRest, Option.none_or, lastWrite?_singleton] at hLast
      have hNone :
          lastWrite?
            (writes.filter fun write => keep write.2)
            key = none :=
        lastWrite?_eq_none_iff.mpr fun other hOther =>
          lastWrite?_eq_none_iff.mp hRest other
            (List.mem_filter.mp hOther).1
      by_cases hKey : write.1 = key
      · rw [if_pos hKey] at hLast
        injection hLast with hValue
        rw [hNone, List.filter_cons_of_pos (by rw [hValue, hKeep]),
          List.filter_nil, lastWrite?_singleton,
          if_pos hKey, hValue]
        rfl
      · rw [if_neg hKey] at hLast
        cases hLast

/-
  Two phases do what the writes do in their order exactly
  when no late value is followed by an early one of its key.
-/
theorem assign_phased_iff
    {state : Key → Value}
    {writes : List (Key × Value)} :
    assign state (phased late writes) = assign state writes
      ↔ LateLast late writes := by
  constructor
  · intro hSame write hWrite hLate value hLast
    have hMem :
        write ∈ writes.filter fun write => late write.2 :=
      List.mem_filter.mpr ⟨hWrite, hLate⟩
    rcases exists_lastWrite? hMem with ⟨other, hOther⟩
    have hAt := congrFun hSame write.1
    rw [assign_apply, assign_apply, phased,
      lastWrite?_append, hOther, hLast] at hAt
    have hEqual : other = value := hAt
    rw [← hEqual]
    exact (List.mem_filter.mp (mem_of_lastWrite? hOther)).2
  · intro hLateLast
    refine assign_congr fun key => ?_
    rw [phased, lastWrite?_append]
    cases hLast : lastWrite? writes key with
    | none =>
      have hNone := lastWrite?_eq_none_iff.mp hLast
      have hFiltered :
          ∀ keep : Value → Bool,
            lastWrite?
              (writes.filter fun write => keep write.2)
              key = none :=
        fun keep =>
          lastWrite?_eq_none_iff.mpr fun write hWrite =>
            hNone write (List.mem_filter.mp hWrite).1
      rw [hFiltered late, hFiltered fun value => !late value]
      rfl
    | some value =>
      by_cases hLate : late value = true
      · rw [lastWrite?_filter hLast hLate]
        rfl
      · have hNoLate :
            lastWrite?
              (writes.filter fun write => late write.2)
              key = none := by
          refine lastWrite?_eq_none_iff.mpr ?_
          intro write hWrite hKey
          rcases List.mem_filter.mp hWrite with
            ⟨hMem, hWriteLate⟩
          subst hKey
          exact
            hLate (hLateLast write hMem hWriteLate value hLast)
        rw [hNoLate, Option.none_or]
        have hKeep : (!late value) = true := by
          simpa using hLate
        exact
          @lastWrite?_filter _ _ _ (fun value => !late value)
            _ _ _ hLast hKeep

end Phases

----------
-- Loops of Writes
----------

section Loops

variable {State Item Error : Type}
variable (view : State → Key → Value)
variable (write : Item → Key × Value)

/- A loop whose steps are writes is a list of writes. -/
theorem foldl_assign
    {step : State → Item → State}
    (hStep :
      ∀ state item,
        view (step state item) =
          Function.update (view state) (write item).1
            (write item).2)
    (items : List Item)
    (state : State) :
    view (items.foldl step state) =
      assign (view state) (items.map write) := by
  induction items generalizing state with
  | nil => rfl
  | cons item items ih =>
    rw [List.foldl_cons, ih, hStep, List.map_cons, assign_cons]

/- The same for a loop that may fail, when it does not. -/
theorem foldlM_assign
    {step : State → Item → Except Error State}
    (hStep :
      ∀ state item next,
        step state item = Except.ok next →
        view next =
          Function.update (view state) (write item).1
            (write item).2)
    {items : List Item}
    {state last : State}
    (hLoop : items.foldlM step state = Except.ok last) :
    view last = assign (view state) (items.map write) := by
  induction items generalizing state with
  | nil =>
    cases hLoop
    rfl
  | cons item items ih =>
    rw [List.foldlM_cons] at hLoop
    cases hFirst : step state item with
    | error error =>
      rw [hFirst] at hLoop
      cases hLoop
    | ok next =>
      rw [hFirst] at hLoop
      rw [ih hLoop, hStep state item next hFirst,
        List.map_cons, assign_cons]

end Loops

----------
-- Updates of Pairs and of Sets
----------

/- Two components that are updated are an updated pair. -/
theorem update_prod
    {Second : Type}
    {first first' : Key → Value}
    {second second' : Key → Second}
    {key : Key}
    {value : Value}
    {other : Second}
    (hFirst : first' = Function.update first key value)
    (hSecond : second' = Function.update second key other) :
    (fun key => (first' key, second' key)) =
      Function.update
        (fun key => (first key, second key)) key
        (value, other) := by
  funext place
  rw [hFirst, hSecond]
  by_cases hSame : place = key
  · subst hSame
    simp only [Function.update_self]
  · simp only [Function.update_of_ne hSame]

variable {Before After : Key → Prop}

/- A set that loses one key, as a test. -/
theorem decide_update_false
    [DecidablePred Before]
    [DecidablePred After]
    {key : Key}
    (hAfter :
      ∀ other, After other ↔ Before other ∧ other ≠ key) :
    (fun other => decide (After other)) =
      Function.update (fun other => decide (Before other))
        key false := by
  funext other
  by_cases hSame : other = key
  · subst hSame
    rw [Function.update_self, decide_eq_false_iff_not, hAfter]
    simp
  · rw [Function.update_of_ne hSame, decide_eq_decide, hAfter]
    exact and_iff_left hSame

/- A set that gains one key. -/
theorem decide_update_true
    [DecidablePred Before]
    [DecidablePred After]
    {key : Key}
    (hAfter :
      ∀ other, After other ↔ Before other ∨ other = key) :
    (fun other => decide (After other)) =
      Function.update (fun other => decide (Before other))
        key true := by
  funext other
  by_cases hSame : other = key
  · subst hSame
    rw [Function.update_self, decide_eq_true_eq, hAfter]
    exact Or.inr rfl
  · rw [Function.update_of_ne hSame, decide_eq_decide, hAfter]
    exact or_iff_left hSame

end Assignments

end ArktsServer
