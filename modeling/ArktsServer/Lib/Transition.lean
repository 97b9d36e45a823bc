import Mathlib.Data.List.Induction
import Mathlib.Tactic.Common

/-
  Runs of state machines.  A machine is either a function
  that consumes a list of events or a relation between
  states; in both cases a property of whole runs comes from
  a property of single steps.

  Main declarations:
    * `Transition.run`, `Transition.run_invariant`
    * `Transition.Admissible`
    * `Transition.exists_last_cause`
    * `Transition.zipIdx_invariant`
    * `Transition.Reachable`, `Transition.Reachable.invariant`
-/

----------
-- Event Runs
----------

namespace ArktsServer

namespace Transition

variable {State Event : Type}

variable (step : State → Event → State)

/- Consume a list of events. -/
def run
    (state : State)
    (events : List Event) : State :=
  events.foldl step state

@[simp] theorem run_nil
    (state : State) :
    run step state [] = state :=
  rfl

@[simp] theorem run_cons
    (state : State)
    (event : Event)
    (events : List Event) :
    run step state (event :: events) =
      run step (step state event) events :=
  rfl

theorem run_append
    (state : State)
    (first second : List Event) :
    run step state (first ++ second) =
      run step (run step state first) second :=
  List.foldl_append

/- What every step preserves holds after every run. -/
theorem run_invariant
    {step : State → Event → State}
    {Inv : State → Prop}
    (hStep : ∀ state event, Inv state → Inv (step state event))
    {state : State}
    (hState : Inv state)
    (events : List Event) :
    Inv (run step state events) := by
  induction events generalizing state with
  | nil => exact hState
  | cons event events ih => exact ih (hStep state event hState)

/- Every event of a run is one that its state allows. -/
def Admissible
    (step : State → Event → State)
    (Allowed : State → Event → Prop) :
    State → List Event → Prop
| _, [] => True
| state, event :: events =>
    Allowed state event ∧
      Admissible step Allowed (step state event) events

instance decidableAdmissible
    (step : State → Event → State)
    (Allowed : State → Event → Prop)
    [∀ state event, Decidable (Allowed state event)] :
    ∀ state events,
      Decidable (Admissible step Allowed state events)
| _, [] => isTrue trivial
| state, event :: events =>
    have : Decidable
        (Admissible step Allowed (step state event) events) :=
      decidableAdmissible step Allowed (step state event)
        events
    inferInstanceAs
      (Decidable
        (Allowed state event ∧
          Admissible step Allowed (step state event) events))

/- What every allowed step preserves holds after the run. -/
theorem run_invariant_of_admissible
    {step : State → Event → State}
    {Allowed : State → Event → Prop}
    {Inv : State → Prop}
    (hStep :
      ∀ state event,
        Inv state → Allowed state event →
          Inv (step state event))
    {state : State}
    (hState : Inv state)
    {events : List Event}
    (hEvents : Admissible step Allowed state events) :
    Inv (run step state events) := by
  induction events generalizing state with
  | nil => exact hState
  | cons event events ih =>
    rcases hEvents with ⟨hAllowed, hRest⟩
    exact ih (hStep state event hState hAllowed) hRest

/-
  A property that holds after a run but not before it has a
  last cause: an event that makes it true, after which it
  stays true.
-/
theorem exists_last_cause
    {step : State → Event → State}
    {P : State → Prop}
    [DecidablePred P]
    {state : State}
    (hState : ¬ P state)
    {events : List Event}
    (hRun : P (run step state events)) :
    ∃ before event after,
      events = before ++ event :: after ∧
        ¬ P (run step state before) ∧
        ∀ middle rest,
          after = middle ++ rest →
            P (run step state (before ++ event :: middle)) := by
  induction events using List.reverseRecOn with
  | nil => exact absurd hRun hState
  | append_singleton events last ih =>
    by_cases hEarlier : P (run step state events)
    · rcases ih hEarlier with
        ⟨before, event, after, rfl, hBefore, hAfter⟩
      refine
        ⟨before, event, after ++ [last], by simp, hBefore, ?_⟩
      intro middle rest hSplit
      rcases List.append_eq_append_iff.mp hSplit with
        ⟨extra, hMiddle, hLast⟩ | ⟨extra, hAfterEq, _⟩
      · cases extra with
        | nil =>
          rw [List.append_nil] at hMiddle
          rw [hMiddle]
          exact hEarlier
        | cons head tail =>
          have hParts : [last] = head :: (tail ++ rest) := hLast
          injection hParts with hHead hTail
          rcases List.append_eq_nil_iff.mp hTail.symm with
            ⟨rfl, _⟩
          rw [hMiddle, ← hHead]
          simpa using hRun
      · exact hAfter middle extra hAfterEq
    · refine ⟨events, last, [], rfl, hEarlier, ?_⟩
      intro middle rest hSplit
      rcases List.append_eq_nil_iff.mp hSplit.symm with
        ⟨rfl, _⟩
      exact hRun

----------
-- Numbered Items
----------

/-
  A pass over the numbered items of a list that may stop: an
  invariant that tells how far the pass has come holds of
  its result for the whole list.
-/
theorem zipIdx_invariant
    {Item : Type}
    {step : State → Item × Nat → Option State}
    {Inv : Nat → State → Prop}
    {items : List Item}
    (hStep :
      ∀ index item state state',
        items[index]? = some item →
        Inv index state →
        step state (item, index) = some state' →
        Inv (index + 1) state')
    {first last : State}
    (hFirst : Inv 0 first)
    (hRun : items.zipIdx.foldlM step first = some last) :
    Inv items.length last := by
  have hRest :
      ∀ (rest done : List Item) (state : State),
        items = done ++ rest →
        Inv done.length state →
        (rest.zipIdx done.length).foldlM step state = some last →
        Inv items.length last := by
    intro rest
    induction rest with
    | nil =>
      intro done state hItems hInv hRun
      have hLast : state = last := Option.some.inj hRun
      rw [hItems, List.append_nil, ← hLast]
      exact hInv
    | cons item rest ih =>
      intro done state hItems hInv hRun
      rw [List.zipIdx_cons, List.foldlM_cons] at hRun
      cases hNext : step state (item, done.length) with
      | none =>
        rw [hNext] at hRun
        cases hRun
      | some next =>
        rw [hNext] at hRun
        have hItem : items[done.length]? = some item := by
          rw [hItems]
          simp
        refine ih (done ++ [item]) next ?_ ?_ ?_
        · rw [hItems]
          simp
        · rw [List.length_append]
          exact hStep _ _ _ _ hItem hInv hNext
        · rw [List.length_append]
          exact hRun
  exact hRest items [] first rfl hFirst hRun

----------
-- Reachable States
----------

/- The states that a relation reaches from a start state. -/
inductive Reachable
    (next : State → State → Prop)
    (start : State) : State → Prop
| refl : Reachable next start start
| step {middle last : State} :
    Reachable next start middle →
      next middle last →
      Reachable next start last

theorem Reachable.invariant
    {next : State → State → Prop}
    {Inv : State → Prop}
    {start : State}
    (hStart : Inv start)
    (hNext :
      ∀ state state', Inv state → next state state' →
        Inv state')
    {state : State}
    (hReach : Reachable next start state) :
    Inv state := by
  induction hReach with
  | refl => exact hStart
  | step _ hLast ih => exact hNext _ _ ih hLast

end Transition

end ArktsServer
