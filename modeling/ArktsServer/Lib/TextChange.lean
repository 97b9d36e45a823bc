import Mathlib.Data.List.Basic
import Mathlib.Tactic.Common

/-
  Changes of texts: a span of the text before, and the length
  of what stands there after.  A change is sound if the texts
  agree in front of the span and behind it.

  Main declarations:
    * `TextChange`, `TextChange.Sound`
    * `TextChange.compose`, `TextChange.collapse`
    * `TextChange.Sound.compose`, `TextChange.collapse_sound`
-/

namespace ArktsServer

----------
-- Sound Changes
----------

structure TextChange where
  start : Nat
  length : Nat
  newLength : Nat
deriving DecidableEq

namespace TextChange

variable {Unit : Type}

/- The texts agree outside of the change. -/
structure Sound
    (change : TextChange)
    (before after : List Unit) : Prop where
  old : change.start + change.length ≤ before.length
  new : change.start + change.newLength ≤ after.length
  front :
    before.take change.start = after.take change.start
  back :
    before.drop (change.start + change.length) =
      after.drop (change.start + change.newLength)

/- Changes that follow each other. -/
def SoundAll :
    List Unit → List (List Unit) → List TextChange → Prop
| _, [], [] => True
| before, after :: texts, change :: changes =>
    change.Sound before after ∧
      SoundAll after texts changes
| _, _, _ => False

----------
-- Composition
----------

/- One change that covers two in a row. -/
def compose (first second : TextChange) : TextChange :=
  let start := min first.start second.start
  let oldEnd :=
    first.start + first.length
      + (second.start + second.length
        - (first.start + first.newLength))
  let newEnd :=
    second.start + second.newLength
      + (first.start + first.newLength
        - (second.start + second.length))
  { start := start
    length := oldEnd - start
    newLength := newEnd - start }

variable {before after : List Unit}

theorem drop_further
    {left right : Nat}
    (hBack : before.drop left = after.drop right)
    (more : Nat) :
    before.drop (left + more) = after.drop (right + more) := by
  rw [← List.drop_drop, ← List.drop_drop, hBack]

theorem take_less
    {short long : Nat}
    (hFront : before.take long = after.take long)
    (hShort : short ≤ long) :
    before.take short = after.take short := by
  have hTaken := congrArg (List.take short) hFront
  rw [List.take_take, List.take_take,
    Nat.min_eq_left hShort] at hTaken
  exact hTaken

/- Whatever agrees with the text between agrees. -/
theorem Sound.compose
    {first second : TextChange}
    {before between after : List Unit}
    (hFirst : first.Sound before between)
    (hSecond : second.Sound between after) :
    (first.compose second).Sound before after := by
  have hLength := congrArg List.length hFirst.back
  have hOther := congrArg List.length hSecond.back
  have hOld := hFirst.old
  have hMiddle := hFirst.new
  have hBetween := hSecond.old
  have hNew := hSecond.new
  rw [List.length_drop, List.length_drop] at hLength hOther
  have hOldEnd :
      (first.compose second).start
          + (first.compose second).length =
        first.start + first.length
          + (second.start + second.length
            - (first.start + first.newLength)) := by
    simp only [TextChange.compose]
    omega
  have hNewEnd :
      (first.compose second).start
          + (first.compose second).newLength =
        second.start + second.newLength
          + (first.start + first.newLength
            - (second.start + second.length)) := by
    simp only [TextChange.compose]
    omega
  refine ⟨?_, ?_, ?_, ?_⟩
  · rw [hOldEnd]
    omega
  · rw [hNewEnd]
    omega
  · exact
      (take_less hFirst.front (Nat.min_le_left _ _)).trans
        (take_less hSecond.front (Nat.min_le_right _ _))
  · rw [hOldEnd, hNewEnd, drop_further hFirst.back,
      ← drop_further hSecond.back]
    congr 1
    omega

/- One change for all that follow each other. -/
def collapse : List TextChange → TextChange
| [] => { start := 0, length := 0, newLength := 0 }
| change :: changes => changes.foldl compose change

theorem foldl_compose_sound
    {change : TextChange}
    {changes : List TextChange}
    {texts : List (List Unit)}
    (hChange : change.Sound before after)
    (hChanges : SoundAll after texts changes) :
    (changes.foldl compose change).Sound before
      (texts.getLastD after) := by
  induction changes generalizing change after texts with
  | nil =>
    cases texts with
    | nil => exact hChange
    | cons text texts => cases hChanges
  | cons next changes ih =>
    cases texts with
    | nil => cases hChanges
    | cons text texts =>
      rw [List.foldl_cons, List.getLastD_cons]
      exact ih (hChange.compose hChanges.1) hChanges.2

theorem collapse_sound
    {changes : List TextChange}
    {before : List Unit}
    {texts : List (List Unit)}
    (hSome : changes ≠ [])
    (hChanges : SoundAll before texts changes) :
    (collapse changes).Sound before
      (texts.getLastD before) := by
  cases changes with
  | nil => exact absurd rfl hSome
  | cons change changes =>
    cases texts with
    | nil => cases hChanges
    | cons text texts =>
      rw [List.getLastD_cons]
      exact foldl_compose_sound hChanges.1 hChanges.2

end TextChange

end ArktsServer
