import Mathlib.Data.List.Basic
import Mathlib.Tactic.Common

/-
  Computations over a state that a fault may cut short, and
  whose state survives the fault: the rules by which a
  precondition, a postcondition and a condition on what a
  fault leaves behind go through sequences and choices.

  Main declarations:
    * `Interruption.Meets`, `Interruption.meets_weaken`
    * `Interruption.meets_bind`, `Interruption.meets_ite`
-/

----------
-- Contracts
----------

namespace ArktsServer

namespace Interruption

variable {Fault State Value Next Item : Type}

/-
  Where `before` holds, a computation that returns
  establishes `after`, and one that is cut short `broken`.
-/
def Meets
    (before : State → Prop)
    (computation : EStateM Fault State Value)
    (after : Value → State → Prop)
    (broken : State → Prop) : Prop :=
  ∀ state,
    before state →
      match computation state with
      | .ok value next => after value next
      | .error _ next => broken next

variable {before : State → Prop}
variable {after : Value → State → Prop}
variable {broken : State → Prop}
variable {computation : EStateM Fault State Value}

/- The rule of consequence. -/
theorem meets_weaken
    {earlier : State → Prop}
    {later : Value → State → Prop}
    {failed : State → Prop}
    (hMeets : Meets before computation after broken)
    (hBefore : ∀ state, earlier state → before state)
    (hAfter :
      ∀ value state, after value state → later value state)
    (hBroken : ∀ state, broken state → failed state) :
    Meets earlier computation later failed := by
  intro state hEarlier
  have hResult := hMeets state (hBefore state hEarlier)
  cases hRun : computation state with
  | ok value next =>
    rw [hRun] at hResult
    exact hAfter value next hResult
  | error fault next =>
    rw [hRun] at hResult
    exact hBroken next hResult

----------
-- Single Steps
----------

theorem meets_pure
    {value : Value}
    (hAfter : ∀ state, before state → after value state) :
    Meets before (pure value : EStateM Fault State Value)
      after broken := by
  intro state hBefore
  exact hAfter state hBefore

theorem meets_throw
    {fault : Fault}
    (hBroken : ∀ state, before state → broken state) :
    Meets before (throw fault : EStateM Fault State Value)
      after broken := by
  intro state hBefore
  exact hBroken state hBefore

theorem meets_get
    {after : State → State → Prop}
    (hAfter : ∀ state, before state → after state state) :
    Meets before (get : EStateM Fault State State) after
      broken := by
  intro state hBefore
  exact hAfter state hBefore

theorem get_bind
    (rest : State → EStateM Fault State Value)
    (state : State) :
    ((get : EStateM Fault State State) >>= rest) state =
      rest state state :=
  rfl

theorem meets_modify
    {change : State → State}
    {after : PUnit → State → Prop}
    (hAfter :
      ∀ state, before state → after ⟨⟩ (change state)) :
    Meets before
      (modify change : EStateM Fault State PUnit) after
      broken := by
  intro state hBefore
  exact hAfter state hBefore

theorem meets_bind
    {middle : Value → State → Prop}
    {last : Next → State → Prop}
    {rest : Value → EStateM Fault State Next}
    (hFirst : Meets before computation middle broken)
    (hRest :
      ∀ value, Meets (middle value) (rest value) last broken) :
    Meets before (computation >>= rest) last broken := by
  intro state hBefore
  have hMiddle := hFirst state hBefore
  change
    match EStateM.bind computation rest state with
    | .ok value next => last value next
    | .error _ next => broken next
  unfold EStateM.bind
  cases hRun : computation state with
  | ok value next =>
    rw [hRun] at hMiddle
    exact hRest value next hMiddle
  | error fault next =>
    rw [hRun] at hMiddle
    exact hMiddle

theorem meets_ite
    {condition : Prop}
    [Decidable condition]
    {other : EStateM Fault State Value}
    (hYes :
      condition → Meets before computation after broken)
    (hNo : ¬ condition → Meets before other after broken) :
    Meets before (if condition then computation else other)
      after broken := by
  split
  · rename_i hCondition
    exact hYes hCondition
  · rename_i hCondition
    exact hNo hCondition

end Interruption

end ArktsServer
