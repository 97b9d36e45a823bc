import Mathlib.Data.List.Basic
import Mathlib.Tactic.Common

/-
  The verdict over a list of votes: nothing without votes,
  the value that all of them name, or a contradiction that
  no later vote can heal.

  Main declarations:
    * `Unanimity.weigh`, `Unanimity.verdict`
    * `Unanimity.verdict_eq_value_iff`
    * `Unanimity.verdict_eq_contradiction_iff`
    * `Unanimity.verdict_eq_of_mem_iff`
-/

----------
-- Votes
----------

namespace ArktsServer

namespace Unanimity

variable {Value : Type}

/- One value, or `none` for a contradiction. -/
abbrev Verdict (Value : Type) := Option (Option Value)

variable [DecidableEq Value]

/- Take one more vote into account. -/
def weigh
    (verdict : Verdict Value)
    (vote : Value) : Verdict Value :=
  match verdict with
  | none => some (some vote)
  | some previous =>
      some (if previous = some vote then previous else none)

def verdict (votes : List Value) : Verdict Value :=
  votes.foldl weigh none

/- From a contradiction there is no way back. -/
theorem foldl_weigh_contradiction (votes : List Value) :
    votes.foldl weigh (some none) = some none := by
  induction votes with
  | nil => rfl
  | cons vote votes ih =>
    rw [List.foldl_cons]
    exact ih

/- A value stays as long as every vote is for it. -/
theorem foldl_weigh_value
    (votes : List Value)
    (value : Value) :
    votes.foldl weigh (some (some value)) =
      some (if ∀ vote ∈ votes, vote = value then
        some value
      else
        none) := by
  induction votes with
  | nil => simp
  | cons vote votes ih =>
    rw [List.foldl_cons]
    by_cases hVote : value = vote
    · subst hVote
      have hWeigh :
          weigh (some (some value)) value =
            some (some value) := by
        simp [weigh]
      rw [hWeigh, ih]
      simp
    · have hWeigh :
          weigh (some (some value)) vote = some none := by
        simp [weigh, hVote]
      have hNot :
          ¬ ∀ other ∈ vote :: votes, other = value := by
        intro hAll
        exact hVote (hAll vote List.mem_cons_self).symm
      rw [hWeigh, foldl_weigh_contradiction, if_neg hNot]

theorem verdict_cons
    (vote : Value)
    (votes : List Value) :
    verdict (vote :: votes) =
      some (if ∀ other ∈ votes, other = vote then
        some vote
      else
        none) :=
  foldl_weigh_value votes vote

theorem verdict_eq_none_iff
    {votes : List Value} :
    verdict votes = none ↔ votes = [] := by
  cases votes with
  | nil => simp [verdict]
  | cons vote votes => simp [verdict_cons]

/- A value is the verdict when all votes are for it. -/
theorem verdict_eq_value_iff
    {votes : List Value}
    {value : Value} :
    verdict votes = some (some value) ↔
      value ∈ votes ∧ ∀ vote ∈ votes, vote = value := by
  cases votes with
  | nil => simp [verdict]
  | cons vote votes =>
    rw [verdict_cons, Option.some.injEq]
    constructor
    · intro hValue
      split at hValue
      · rename_i hAll
        have hSame := Option.some.inj hValue
        subst hSame
        refine ⟨List.mem_cons_self, ?_⟩
        intro other hOther
        rcases List.mem_cons.mp hOther with rfl | hMem
        · rfl
        · exact hAll other hMem
      · cases hValue
    · rintro ⟨_, hAll⟩
      have hSame := hAll vote List.mem_cons_self
      subst hSame
      rw [if_pos fun other hOther =>
        hAll other (List.mem_cons_of_mem _ hOther)]

/- Two different votes are a contradiction. -/
theorem verdict_eq_contradiction_iff
    {votes : List Value} :
    verdict votes = some none ↔
      ∃ left ∈ votes, ∃ right ∈ votes, left ≠ right := by
  cases votes with
  | nil => simp [verdict]
  | cons vote votes =>
    rw [verdict_cons, Option.some.injEq]
    constructor
    · intro hNone
      split at hNone
      · cases hNone
      · rename_i hNot
        push Not at hNot
        rcases hNot with ⟨other, hOther, hNe⟩
        exact
          ⟨other, List.mem_cons_of_mem _ hOther, vote,
            List.mem_cons_self, hNe⟩
    · rintro ⟨left, hLeft, right, hRight, hNe⟩
      rw [if_neg]
      intro hAll
      have hEach :
          ∀ other ∈ vote :: votes, other = vote := by
        intro other hOther
        rcases List.mem_cons.mp hOther with rfl | hMem
        · rfl
        · exact hAll other hMem
      exact
        hNe ((hEach left hLeft).trans (hEach right hRight).symm)

/- Only the votes matter, not their order or number. -/
theorem verdict_eq_of_mem_iff
    {left right : List Value}
    (hMem : ∀ vote, vote ∈ left ↔ vote ∈ right) :
    verdict left = verdict right := by
  cases hRight : verdict right with
  | none =>
    rw [verdict_eq_none_iff] at hRight ⊢
    rw [List.eq_nil_iff_forall_not_mem] at hRight ⊢
    intro vote hVote
    exact hRight vote ((hMem vote).mp hVote)
  | some outcome =>
    cases outcome with
    | none =>
      rw [verdict_eq_contradiction_iff] at hRight ⊢
      rcases hRight with ⟨one, hOne, other, hOther, hNe⟩
      exact
        ⟨one, (hMem one).mpr hOne, other,
          (hMem other).mpr hOther, hNe⟩
    | some value =>
      rw [verdict_eq_value_iff] at hRight ⊢
      exact
        ⟨(hMem value).mpr hRight.1, fun vote hVote =>
          hRight.2 vote ((hMem vote).mp hVote)⟩

end Unanimity

end ArktsServer
