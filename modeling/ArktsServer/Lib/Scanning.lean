import Mathlib.Data.List.Basic

/-
  Scanners that take their input piece by piece.  What is
  found at a place may depend on everything that follows;
  it is context free where what follows can be exchanged
  without another finding.

  Main declarations:
    * `Found`, `Scan`, `scan`
    * `Scan.append`, `Scan.split`, `Scan.unique`
    * `scan_eq_some_iff`
    * `Scan.exchange`
-/

----------
-- Scans
----------

namespace ArktsServer

namespace Scanning

/- How much a piece takes, the state behind it, its mark. -/
structure Found (State Mark : Type) where
  width : Nat
  state : State
  mark : Mark

variable {Letter State Mark : Type}

/- The text that pieces have taken. -/
def textOf (pieces : List (List Letter × Mark)) : List Letter :=
  pieces.flatMap Prod.fst

@[simp] theorem textOf_cons
    (piece : List Letter × Mark)
    (pieces : List (List Letter × Mark)) :
    textOf (piece :: pieces) = piece.1 ++ textOf pieces :=
  rfl

variable
  (find : State → Letter → List Letter → Option (Found State Mark))

/-
  From a state and an input, the pieces lead to a state and
  to the rest of the input.
-/
inductive Scan :
    State → List Letter → List (List Letter × Mark) →
      State → List Letter → Prop
| done
    (state : State)
    (rest : List Letter) :
    Scan state rest [] state rest
| step
    {state last : State}
    {letter : Letter}
    {letters rest : List Letter}
    {found : Found State Mark}
    {pieces : List (List Letter × Mark)}
    (hFind : find state letter letters = some found)
    (hScan :
      Scan found.state ((letter :: letters).drop found.width)
        pieces last rest) :
    Scan state (letter :: letters)
      (((letter :: letters).take found.width, found.mark)
        :: pieces)
      last rest

/- The scan to the end; the fuel counts the pieces. -/
def scan :
    Nat → State → List Letter →
      Option (List (List Letter × Mark))
| _, _, [] => some []
| 0, _, _ :: _ => none
| fuel + 1, state, letter :: letters => do
    let found ← find state letter letters
    let pieces ←
      scan fuel found.state
        ((letter :: letters).drop found.width)
    some
      (((letter :: letters).take found.width, found.mark)
        :: pieces)

section Scans

variable {find}
variable {state middle last other : State}
variable {input rest final : List Letter}
variable {pieces more : List (List Letter × Mark)}

theorem Scan.text
    (hScan : Scan find state input pieces last rest) :
    input = textOf pieces ++ rest := by
  induction hScan with
  | done state rest => rfl
  | step hFind hScan ih =>
    rw [textOf_cons, List.append_assoc, ← ih]
    exact (List.take_append_drop _ _).symm

theorem Scan.append
    (hFirst : Scan find state input pieces middle rest)
    (hSecond : Scan find middle rest more last final) :
    Scan find state input (pieces ++ more) last final := by
  induction hFirst with
  | done state rest => exact hSecond
  | step hFind hScan ih => exact .step hFind (ih hSecond)

/- A scan to the end goes through every place on its way. -/
theorem Scan.split
    (hFirst : Scan find state input pieces middle rest)
    (hWhole : Scan find state input more last []) :
    ∃ later,
      more = pieces ++ later ∧
        Scan find middle rest later last [] := by
  induction hFirst generalizing more with
  | done state rest => exact ⟨more, rfl, hWhole⟩
  | step hFind hScan ih =>
    cases hWhole with
    | step hOther hRest =>
      cases hFind.symm.trans hOther
      rcases ih hRest with ⟨later, rfl, hLater⟩
      exact ⟨later, rfl, hLater⟩

end Scans

----------
-- Runs
----------

/- Every piece takes a letter. -/
def Advances : Prop :=
  ∀ state letter letters found,
    find state letter letters = some found → 0 < found.width

section Runs

variable {find}
variable {state : State}
variable {input : List Letter}
variable {pieces : List (List Letter × Mark)}
variable {fuel : Nat}

theorem length_drop_lt
    {letter : Letter}
    {letters : List Letter}
    {width : Nat}
    (hWidth : 0 < width) :
    ((letter :: letters).drop width).length
      ≤ letters.length := by
  rw [List.length_drop, List.length_cons]
  omega

theorem scan_eq_some_iff
    (hAdvances : Advances find)
    (hFuel : input.length ≤ fuel) :
    scan find fuel state input = some pieces ↔
      ∃ last, Scan find state input pieces last [] := by
  induction fuel generalizing state input pieces with
  | zero =>
    cases List.eq_nil_of_length_eq_zero (Nat.le_zero.mp hFuel)
    constructor
    · intro hRun
      injection hRun with hRun
      subst hRun
      exact ⟨state, .done state []⟩
    · rintro ⟨last, hScan⟩
      cases hScan
      rfl
  | succ fuel ih =>
    cases input with
    | nil =>
      constructor
      · intro hRun
        injection hRun with hRun
        subst hRun
        exact ⟨state, .done state []⟩
      · rintro ⟨last, hScan⟩
        cases hScan
        rfl
    | cons letter letters =>
      rw [scan]
      cases hFind : find state letter letters with
      | none =>
        constructor
        · intro hRun
          cases hRun
        · rintro ⟨last, hScan⟩
          cases hScan with
          | step hFound hRest =>
            cases hFind.symm.trans hFound
      | some found =>
        have hShort :=
          Nat.le_trans
            (@length_drop_lt _ letter letters _
              (hAdvances _ _ _ _ hFind))
            (Nat.le_of_succ_le_succ hFuel)
        constructor
        · intro hRun
          cases hRest :
              scan find fuel found.state
                ((letter :: letters).drop found.width) with
          | none =>
            simp only [Option.bind_eq_bind,
              Option.bind_some, hRest,
              Option.bind_none] at hRun
            cases hRun
          | some later =>
            simp only [Option.bind_eq_bind,
              Option.bind_some, hRest] at hRun
            cases hRun
            rcases (ih hShort).mp hRest with
              ⟨last, hScan⟩
            exact ⟨last, .step hFind hScan⟩
        · rintro ⟨last, hScan⟩
          cases hScan with
          | step hFound hRest =>
            cases hFind.symm.trans hFound
            have hRun := (ih hShort).mpr ⟨last, hRest⟩
            simp only [Option.bind_eq_bind,
              Option.bind_some, hRun]

/- A scan ends, or stops where nothing is found. -/
theorem scan_stops
    (hAdvances : Advances find)
    (hFuel : input.length ≤ fuel)
    (hNone : scan find fuel state input = none) :
    ∃ pieces stopped letter letters,
      Scan find state input pieces stopped
          (letter :: letters) ∧
        find stopped letter letters = none := by
  induction fuel generalizing state input with
  | zero =>
    cases List.eq_nil_of_length_eq_zero (Nat.le_zero.mp hFuel)
    cases hNone
  | succ fuel ih =>
    cases input with
    | nil => cases hNone
    | cons letter letters =>
      rw [scan] at hNone
      cases hFind : find state letter letters with
      | none =>
        exact ⟨[], state, letter, letters, .done state _, hFind⟩
      | some found =>
        have hShort :=
          Nat.le_trans
            (@length_drop_lt _ letter letters _
              (hAdvances _ _ _ _ hFind))
            (Nat.le_of_succ_le_succ hFuel)
        cases hRest :
            scan find fuel found.state
              ((letter :: letters).drop found.width) with
        | none =>
          rcases ih hShort hRest with
            ⟨pieces, stopped, next, nexts, hScan, hStopped⟩
          exact
            ⟨_, stopped, next, nexts, .step hFind hScan, hStopped⟩
        | some later =>
          simp only [hFind, Option.bind_eq_bind,
            Option.bind_some, hRest] at hNone
          cases hNone

theorem scan_eq_none_iff
    (hAdvances : Advances find)
    (hFuel : input.length ≤ fuel) :
    scan find fuel state input = none ↔
      ∃ pieces stopped letter letters,
        Scan find state input pieces stopped
            (letter :: letters) ∧
          find stopped letter letters = none := by
  constructor
  · exact scan_stops hAdvances hFuel
  · rintro ⟨pieces, stopped, letter, letters, hScan, hNone⟩
    cases hRun : scan find fuel state input with
    | none => rfl
    | some whole =>
      rcases (scan_eq_some_iff hAdvances hFuel).mp hRun with
        ⟨last, hWhole⟩
      rcases hScan.split hWhole with ⟨later, _, hLater⟩
      cases hLater with
      | step hFound hRest => cases hNone.symm.trans hFound

end Runs

----------
-- Exchange
----------

/-
  What is found in front of a rest, without reaching into
  it, is found in front of the other rest, too.
-/
def ContextFree (rest other : List Letter) : Prop :=
  ∀ state letter letters found,
    find state letter (letters ++ rest) = some found →
    found.width ≤ letters.length + 1 →
    find state letter (letters ++ other) = some found

variable {find}
variable {state last : State}
variable {input rest : List Letter}
variable {pieces : List (List Letter × Mark)}

theorem Scan.exchange
    {other : List Letter}
    (hAdvances : Advances find)
    (hRest : rest ≠ [])
    (hFree : ContextFree find rest other)
    (hScan : Scan find state input pieces last rest) :
    Scan find state (textOf pieces ++ other) pieces last
      other := by
  induction hScan with
  | done state rest => exact .done state other
  | @step state last letter letters rest found pieces hFind
      hScan ih =>
      have hWidth := hAdvances _ _ _ _ hFind
      have hDrop := hScan.text
      cases hTotal : found.width with
      | zero => omega
      | succ width =>
        rw [hTotal, List.drop_succ_cons] at hDrop
        have hLetters :
            letters =
              (letters.take width ++ textOf pieces) ++ rest := by
          rw [List.append_assoc, ← hDrop, List.take_append_drop]
        have hShort : width ≤ letters.length := by
          have hSome :
              0 < (letters.drop width).length := by
            rw [hDrop, List.length_append]
            have hPos := List.length_pos_iff.mpr hRest
            omega
          rw [List.length_drop] at hSome
          omega
        have hTake :
            (letters.take width).length = width :=
          List.length_take_of_le hShort
        rw [hLetters] at hFind
        have hFound :=
          hFree state letter _ found hFind (by
            rw [hTotal, List.length_append, hTake]
            omega)
        have hTaken :
            (letter :: ((letters.take width
                ++ textOf pieces) ++ other)).take
              found.width =
              letter :: letters.take width := by
          rw [hTotal, List.take_succ_cons,
            List.append_assoc, List.take_left' hTake]
        have hLeft :
            (letter :: ((letters.take width
                ++ textOf pieces) ++ other)).drop
              found.width =
              textOf pieces ++ other := by
          rw [hTotal, List.drop_succ_cons,
            List.append_assoc, List.drop_left' hTake]
        have hStep := Scan.step hFound (hLeft ▸ ih hRest hFree)
        rw [hTaken] at hStep
        rw [List.take_succ_cons, textOf_cons,
          List.cons_append, List.cons_append]
        exact hStep

end Scanning

end ArktsServer
