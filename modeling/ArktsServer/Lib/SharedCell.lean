import Mathlib.Data.List.Basic
import Mathlib.Tactic.Common

/-
  Sequential programs over one shared atomic cell, and rely
  and guarantee reasoning for them.

  A program loads the cell, compares and exchanges it, or
  performs an effect that others can see.  Between two of
  its operations the environment may change the cell as the
  rely relation allows.  `Safe` says that under such
  interference the history is good as long as the program
  runs, every exchange is guaranteed, and the end satisfies
  a postcondition.

  Main declarations:
    * `SharedCell.Program`
    * `SharedCell.Safe`
    * `SharedCell.Safe.bind`
    * `SharedCell.Program.advance`
    * `SharedCell.Safe.advance`, `SharedCell.Safe.interfere`
    * `SharedCell.Safe.good`, `SharedCell.Safe.post`
-/

----------
-- Programs
----------

namespace ArktsServer

namespace SharedCell

/- A program with visible effects that returns a value. -/
inductive Program (Cell Effect Value : Type) where
| done (value : Value)
| load (next : Cell → Program Cell Effect Value)
| exchange
    (expected desired : Cell)
    (next : Bool → Program Cell Effect Value)
| perform
    (effect : Effect)
    (next : Program Cell Effect Value)

namespace Program

variable {Cell Effect Value Result : Type}

/- Run one program and continue with its value. -/
def bind :
    Program Cell Effect Value →
      (Value → Program Cell Effect Result) →
      Program Cell Effect Result
| done value, after => after value
| load next, after => load fun cell => (next cell).bind after
| exchange expected desired next, after =>
    exchange expected desired fun swapped =>
      (next swapped).bind after
| perform effect next, after =>
    perform effect (next.bind after)

theorem bind_assoc
    {Last : Type}
    (program : Program Cell Effect Value)
    (middle : Value → Program Cell Effect Result)
    (after : Result → Program Cell Effect Last) :
    (program.bind middle).bind after =
      program.bind fun value =>
        (middle value).bind after := by
  induction program with
  | done value => rfl
  | load next ih =>
    simp only [bind]
    congr 1
    funext cell
    exact ih cell
  | exchange expected desired next ih =>
    simp only [bind]
    congr 1
    funext swapped
    exact ih swapped
  | perform effect next ih =>
    simp only [bind]
    congr 1

/- One operation: the new cell, the effect and the rest. -/
def advance
    [DecidableEq Cell]
    (cell : Cell) :
    Program Cell Effect Value →
      Option
        (Cell × List Effect × Program Cell Effect Value)
| done _ => none
| load next => some (cell, [], next cell)
| exchange expected desired next =>
    if cell = expected then
      some (desired, [], next true)
    else
      some (cell, [], next false)
| perform effect next => some (cell, [effect], next)

end Program

----------
-- Safety under Interference
----------

section Safety

variable {Cell Effect Value Result : Type}

variable (rely : Cell → Cell → Prop)
variable (guarantee : Cell → Cell → Prop)
variable (Good : Cell → List Effect → Prop)

/- A program is safe from a cell and a history of effects. -/
def Safe
    (Post : Cell → List Effect → Value → Prop) :
    Program Cell Effect Value → Cell → List Effect → Prop
| .done value, cell, history =>
    ∀ cell', rely cell cell' → Post cell' history value
| .load next, cell, history =>
    ∀ cell', rely cell cell' →
      Good cell' history ∧
        Safe Post (next cell') cell' history
| .exchange expected desired next, cell, history =>
    guarantee expected desired ∧
      ∀ cell', rely cell cell' →
        Good cell' history ∧
          (cell' = expected →
            Safe Post (next true) desired history) ∧
          (cell' ≠ expected →
            Safe Post (next false) cell' history)
| .perform effect next, cell, history =>
    ∀ cell', rely cell cell' →
      Good cell' history ∧
        Safe Post next cell' (history ++ [effect])

variable {rely guarantee Good}

namespace Safe

variable {program : Program Cell Effect Value}
variable {Post : Cell → List Effect → Value → Prop}
variable {history : List Effect}

/- Interference keeps a program safe. -/
theorem interfere
    (hTrans :
      ∀ first second third,
        rely first second → rely second third →
          rely first third)
    {cell cell' : Cell}
    (hSafe :
      Safe rely guarantee Good Post program cell history)
    (hRely : rely cell cell') :
    Safe rely guarantee Good Post program cell' history := by
  cases program with
  | done value =>
    intro later hLater
    exact hSafe later (hTrans _ _ _ hRely hLater)
  | load next =>
    intro later hLater
    exact hSafe later (hTrans _ _ _ hRely hLater)
  | exchange expected desired next =>
    refine ⟨hSafe.1, ?_⟩
    intro later hLater
    exact hSafe.2 later (hTrans _ _ _ hRely hLater)
  | perform effect next =>
    intro later hLater
    exact hSafe later (hTrans _ _ _ hRely hLater)

variable {cell : Cell}

/- A weaker postcondition. -/
theorem weaken
    {Post Post' : Cell → List Effect → Value → Prop}
    (hSafe :
      Safe rely guarantee Good Post program cell history)
    (hPost :
      ∀ cell history value,
        Post cell history value →
          Post' cell history value) :
    Safe rely guarantee Good Post' program cell history := by
  induction program generalizing cell history with
  | done value =>
    intro later hLater
    exact hPost _ _ _ (hSafe later hLater)
  | load next ih =>
    intro later hLater
    have hStep := hSafe later hLater
    exact ⟨hStep.1, ih later hStep.2⟩
  | exchange expected desired next ih =>
    refine ⟨hSafe.1, ?_⟩
    intro later hLater
    rcases hSafe.2 later hLater with
      ⟨hGood, hTrue, hFalse⟩
    refine ⟨hGood, ?_, ?_⟩
    · intro hEq
      exact ih true (hTrue hEq)
    · intro hNe
      exact ih false (hFalse hNe)
  | perform effect next ih =>
    intro later hLater
    have hStep := hSafe later hLater
    exact ⟨hStep.1, ih hStep.2⟩

/-
  Sequencing: the second program is safe where the first
  ends.
-/
theorem bind
    (hRefl : ∀ cell, rely cell cell)
    {Middle : Cell → List Effect → Value → Prop}
    {Post : Cell → List Effect → Result → Prop}
    {after : Value → Program Cell Effect Result}
    (hSafe :
      Safe rely guarantee Good Middle program cell history)
    (hAfter :
      ∀ cell history value,
        Middle cell history value →
          Safe rely guarantee Good Post (after value) cell
            history) :
    Safe rely guarantee Good Post (program.bind after) cell
      history := by
  induction program generalizing cell history with
  | done value =>
    exact hAfter _ _ _ (hSafe cell (hRefl cell))
  | load next ih =>
    intro later hLater
    have hStep := hSafe later hLater
    exact ⟨hStep.1, ih later hStep.2⟩
  | exchange expected desired next ih =>
    refine ⟨hSafe.1, ?_⟩
    intro later hLater
    rcases hSafe.2 later hLater with
      ⟨hGood, hTrue, hFalse⟩
    refine ⟨hGood, ?_, ?_⟩
    · intro hEq
      exact ih true (hTrue hEq)
    · intro hNe
      exact ih false (hFalse hNe)
  | perform effect next ih =>
    intro later hLater
    have hStep := hSafe later hLater
    exact ⟨hStep.1, ih hStep.2⟩

/- What a program that has not ended guarantees now. -/
theorem good
    [DecidableEq Cell]
    (hRefl : ∀ cell, rely cell cell)
    (hSafe :
      Safe rely guarantee Good Post program cell history)
    (hRunning : (program.advance cell).isSome) :
    Good cell history := by
  cases program with
  | done value => cases hRunning
  | load next => exact (hSafe cell (hRefl cell)).1
  | exchange expected desired next =>
    exact (hSafe.2 cell (hRefl cell)).1
  | perform effect next =>
    exact (hSafe cell (hRefl cell)).1

/- What a program that has ended guarantees. -/
theorem post
    [DecidableEq Cell]
    (hRefl : ∀ cell, rely cell cell)
    (hSafe :
      Safe rely guarantee Good Post program cell history)
    (hEnded : program.advance cell = none) :
    ∃ value, Post cell history value := by
  cases program with
  | done value => exact ⟨value, hSafe cell (hRefl cell)⟩
  | load next => cases hEnded
  | exchange expected desired next =>
    simp only [Program.advance] at hEnded
    split at hEnded
    · cases hEnded
    · cases hEnded
  | perform effect next => cases hEnded

/-
  One operation of a safe program: the rest is safe, and a
  change of the cell is guaranteed.
-/
theorem advance
    [DecidableEq Cell]
    (hRefl : ∀ cell, rely cell cell)
    (hSafe :
      Safe rely guarantee Good Post program cell history)
    {cell' : Cell}
    {effects : List Effect}
    {rest : Program Cell Effect Value}
    (hAdvance :
      program.advance cell = some (cell', effects, rest)) :
    Safe rely guarantee Good Post rest cell'
        (history ++ effects) ∧
      (cell' = cell ∨ guarantee cell cell') := by
  cases program with
  | done value => cases hAdvance
  | load next =>
    cases hAdvance
    rw [List.append_nil]
    exact ⟨(hSafe cell (hRefl cell)).2, Or.inl rfl⟩
  | exchange expected desired next =>
    rcases hSafe.2 cell (hRefl cell) with
      ⟨_, hTrue, hFalse⟩
    simp only [Program.advance] at hAdvance
    by_cases hEq : cell = expected
    · rw [if_pos hEq] at hAdvance
      cases hAdvance
      rw [List.append_nil]
      have hNext := hTrue hEq
      subst hEq
      exact ⟨hNext, Or.inr hSafe.1⟩
    · rw [if_neg hEq] at hAdvance
      cases hAdvance
      rw [List.append_nil]
      exact ⟨hFalse hEq, Or.inl rfl⟩
  | perform effect next =>
    cases hAdvance
    exact ⟨(hSafe cell (hRefl cell)).2, Or.inl rfl⟩

end Safe

end Safety

end SharedCell

end ArktsServer
