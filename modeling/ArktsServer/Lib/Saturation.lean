import Mathlib.Data.List.Basic
import Mathlib.Order.Defs.LinearOrder
import Mathlib.Tactic.Common

/-
  Saturation loops: sweep a list of items over a state until
  one whole sweep leaves the size of the state unchanged.

  The loop is fuelled.  A bound on the size of every state
  that satisfies the loop invariant turns into enough fuel,
  and the state that the loop returns is then fixed by the
  step of every item.  The same state is reached, and kept,
  when the items take turns without an end.

  Main declarations:
    * `Saturation.sweep`, `Saturation.saturate`
    * `Saturation.Growing`
    * `Saturation.saturate_fixed`
    * `Saturation.takeTurns`
    * `Saturation.saturate_eq_takeTurns`
    * `Saturation.takeTurns_fixed`
-/

----------
-- Sweeps and Saturation
----------

namespace ArktsServer

namespace Saturation

variable {State Item : Type}

/- One sweep: the step of every item, in list order. -/
def sweep
    (step : State → Item → State)
    (items : List Item)
    (state : State) : State :=
  items.foldl step state

/- Sweep until the size of the state stops changing. -/
def saturate
    (step : State → Item → State)
    (size : State → Nat)
    (items : List Item) :
    Nat → State → State
| 0, state => state
| fuel + 1, state =>
    let next := sweep step items state
    if size next = size state then
      next
    else
      saturate step size items fuel next

variable {state : State}

/- A property kept by every step is kept by a sweep. -/
theorem sweep_preserves
    {step : State → Item → State}
    {items : List Item}
    {Inv : State → Prop}
    (hStep :
      ∀ state item,
        item ∈ items → Inv state → Inv (step state item))
    (hState : Inv state) :
    Inv (sweep step items state) := by
  induction items generalizing state with
  | nil => exact hState
  | cons head tail ih =>
    apply ih
    · intro other item hItem
      exact hStep other item (List.mem_cons_of_mem _ hItem)
    · exact hStep state head List.mem_cons_self hState

----------
-- Fixed States
----------

/-
  A growing system: under the invariant a step never shrinks
  the state, changes it only by making it larger, and never
  makes it larger than the bound.
-/
structure Growing
    (step : State → Item → State)
    (size : State → Nat)
    (items : List Item)
    (Inv : State → Prop)
    (bound : Nat) : Prop where
  keeps :
    ∀ state item,
      item ∈ items → Inv state → Inv (step state item)
  size_le :
    ∀ state item,
      item ∈ items → Inv state →
        size state ≤ size (step state item)
  eq_of_size_eq :
    ∀ state item,
      item ∈ items → Inv state →
        size (step state item) = size state →
          step state item = state
  bounded : ∀ state, Inv state → size state ≤ bound

namespace Growing

variable {step : State → Item → State}
variable {size : State → Nat}
variable {items : List Item}
variable {Inv : State → Prop}
variable {bound : Nat}

theorem tail
    {head : Item}
    (hGrow : Growing step size (head :: items) Inv bound) :
    Growing step size items Inv bound where
  keeps state item hItem :=
    hGrow.keeps state item (List.mem_cons_of_mem _ hItem)
  size_le state item hItem :=
    hGrow.size_le state item (List.mem_cons_of_mem _ hItem)
  eq_of_size_eq state item hItem :=
    hGrow.eq_of_size_eq state item (List.mem_cons_of_mem _ hItem)
  bounded := hGrow.bounded

/- A sweep never shrinks the state. -/
theorem size_le_sweep
    (hGrow : Growing step size items Inv bound)
    (hState : Inv state) :
    size state ≤ size (sweep step items state) := by
  induction items generalizing state with
  | nil => exact Nat.le_refl _
  | cons head tail ih =>
    exact
      Nat.le_trans
        (hGrow.size_le state head List.mem_cons_self hState)
        (ih hGrow.tail
          (hGrow.keeps state head List.mem_cons_self hState))

/-
  A sweep that keeps the size is the identity, and so is
  each of its steps.
-/
theorem step_eq_of_sweep_size_eq
    (hGrow : Growing step size items Inv bound)
    (hState : Inv state)
    (hSize : size (sweep step items state) = size state) :
    sweep step items state = state ∧
      ∀ item ∈ items, step state item = state := by
  induction items generalizing state with
  | nil => exact ⟨rfl, by simp⟩
  | cons head tail ih =>
    have hHeadInv :=
      hGrow.keeps state head List.mem_cons_self hState
    have hHeadLe :=
      hGrow.size_le state head List.mem_cons_self hState
    have hTailLe := hGrow.tail.size_le_sweep hHeadInv
    have hSplit :
        size (sweep step tail (step state head)) =
          size state := hSize
    have hHead : step state head = state :=
      hGrow.eq_of_size_eq state head List.mem_cons_self
        hState (by omega)
    rw [hHead] at hSplit
    rcases ih hGrow.tail hState hSplit with
      ⟨hSweep, hSteps⟩
    constructor
    · change sweep step tail (step state head) = state
      rw [hHead, hSweep]
    · intro item hItem
      rcases List.mem_cons.mp hItem with rfl | hTail
      · exact hHead
      · exact hSteps item hTail

/-
  With more fuel than the size can still grow, the loop ends
  in a state of the invariant that every item leaves alone.
-/
theorem saturate_fixed
    (hGrow : Growing step size items Inv bound)
    {fuel : Nat}
    (hState : Inv state)
    (hFuel : bound < fuel + size state) :
    Inv (saturate step size items fuel state) ∧
      ∀ item ∈ items,
        step (saturate step size items fuel state) item =
          saturate step size items fuel state := by
  induction fuel generalizing state with
  | zero =>
    have hBound := hGrow.bounded state hState
    omega
  | succ fuel ih =>
    have hNext : Inv (sweep step items state) :=
      sweep_preserves hGrow.keeps hState
    have hLe := hGrow.size_le_sweep hState
    unfold saturate
    by_cases hSize : size (sweep step items state) = size state
    · rcases hGrow.step_eq_of_sweep_size_eq hState hSize
        with ⟨hSweep, hSteps⟩
      simp only [if_true, hSweep]
      exact ⟨hState, hSteps⟩
    · simp only [hSize, if_false]
      exact ih hNext (by omega)

end Growing

----------
-- Turns
----------

section Turns

variable (step : State → Item → State)
variable (items : List Item)

/- The items take turns, round after round. -/
def turnItem? (turn : Nat) : Option Item :=
  items[turn % items.length]?

/- The state before a turn, without an end of the loop. -/
def takeTurns (state : State) : Nat → State
| 0 => state
| turn + 1 =>
    match turnItem? items turn with
    | none => takeTurns state turn
    | some item => step (takeTurns state turn) item

variable {step items}
variable {state : State}

/- The first turns of a round visit the first items. -/
theorem takeTurns_round
    (round : Nat)
    {turns : Nat}
    (hTurns : turns ≤ items.length) :
    takeTurns step items state
        (round * items.length + turns) =
      sweep step (items.take turns)
        (takeTurns step items state
          (round * items.length)) := by
  induction turns with
  | zero => rfl
  | succ turns ih =>
    have hLess : turns < items.length := hTurns
    have hItem :
        turnItem? items (round * items.length + turns) =
          some items[turns] := by
      unfold turnItem?
      rw [Nat.mul_comm, Nat.mul_add_mod,
        Nat.mod_eq_of_lt hLess,
        List.getElem?_eq_getElem hLess]
    rw [← Nat.add_assoc, takeTurns, hItem,
      ih (Nat.le_of_lt hLess),
      List.take_succ_eq_append_getElem hLess]
    unfold sweep
    rw [List.foldl_append]
    rfl

/- The loop returns the state before some turn. -/
theorem saturate_eq_takeTurns
    (size : State → Nat)
    (fuel round : Nat) :
    ∃ turn,
      saturate step size items fuel
          (takeTurns step items state
            (round * items.length)) =
        takeTurns step items state turn := by
  induction fuel generalizing round with
  | zero => exact ⟨_, rfl⟩
  | succ fuel ih =>
    have hRound :=
      @takeTurns_round _ _ step items state round _
        (Nat.le_refl _)
    rw [List.take_length, ← Nat.succ_mul] at hRound
    unfold saturate
    rw [← hRound]
    dsimp only
    split
    · exact ⟨_, rfl⟩
    · exact ih (round + 1)

/- A state that no item changes stays for all later turns. -/
theorem takeTurns_fixed
    {turn later : Nat}
    (hFixed :
      ∀ item ∈ items,
        step (takeTurns step items state turn) item =
          takeTurns step items state turn)
    (hLater : turn ≤ later) :
    takeTurns step items state later =
      takeTurns step items state turn := by
  induction hLater with
  | refl => rfl
  | @step later _ ih =>
    rw [takeTurns, ih]
    cases hItem : turnItem? items later with
    | none => rfl
    | some item =>
      exact hFixed item (List.mem_of_getElem? hItem)

end Turns

end Saturation

end ArktsServer
