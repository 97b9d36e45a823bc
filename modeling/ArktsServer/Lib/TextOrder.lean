import Mathlib.Data.List.Basic
import Mathlib.Data.List.Lex
import Mathlib.Data.String.Basic
import Mathlib.Order.Lattice

/-
  The order of texts.  UTF-8 keeps the order of code points:
  texts compare by their bytes as they compare by their
  characters.  The texts from a prefix up to the prefix with
  a greatest letter behind it are the ones that start with
  the prefix and do not go on with that letter.

  Main declarations:
    * `TextOrder.codeBytes`, `TextOrder.bytesOf`
    * `TextOrder.codeBytes_toNat`
    * `TextOrder.bytesOf_lt_iff`
    * `TextOrder.between_iff_prefix`
-/

namespace ArktsServer

namespace TextOrder

----------
-- Bytes
----------

/- The bytes of a code point. -/
def codeBytes (code : Nat) : List Nat :=
  if code < 0x80 then
    [code]
  else if code < 0x800 then
    [0xc0 + code / 0x40, 0x80 + code % 0x40]
  else if code < 0x10000 then
    [0xe0 + code / 0x1000, 0x80 + code / 0x40 % 0x40,
      0x80 + code % 0x40]
  else
    [0xf0 + code / 0x40000, 0x80 + code / 0x1000 % 0x40,
      0x80 + code / 0x40 % 0x40, 0x80 + code % 0x40]

def bytesOf (chars : List Char) : List Nat :=
  chars.flatMap fun char => codeBytes char.toNat

theorem toNat_lt (char : Char) :
    char.toNat < 0x110000 := by
  rcases char.valid with hLow | ⟨_, hHigh⟩
  · exact Nat.lt_trans hLow (by decide)
  · exact hHigh

/-
  The bytes of a smaller code point are smaller, whatever
  comes behind: a longer encoding starts with a larger byte,
  and encodings of one length compare digit by digit.
-/
theorem codeBytes_lt
    {left right : Nat}
    (hLess : left < right)
    (hBound : right < 0x110000)
    (leftRest rightRest : List Nat) :
    codeBytes left ++ leftRest
      < codeBytes right ++ rightRest := by
  unfold codeBytes
  by_cases hOne : left < 0x80
  · rw [if_pos hOne]
    split
    · simp only [List.cons_append, List.nil_append,
        List.cons_lt_cons_iff]
      omega
    · split
      · simp only [List.cons_append, List.nil_append,
          List.cons_lt_cons_iff]
        omega
      · split <;>
          simp only [List.cons_append, List.nil_append,
            List.cons_lt_cons_iff] <;>
          omega
  · rw [if_neg hOne, if_neg (show ¬ right < 0x80 by omega)]
    by_cases hTwo : left < 0x800
    · rw [if_pos hTwo]
      split
      · simp only [List.cons_append, List.nil_append,
          List.cons_lt_cons_iff]
        omega
      · split <;>
          simp only [List.cons_append, List.nil_append,
            List.cons_lt_cons_iff] <;>
          omega
    · rw [if_neg hTwo, if_neg (show ¬ right < 0x800 by omega)]
      by_cases hThree : left < 0x10000
      · rw [if_pos hThree]
        split <;>
          simp only [List.cons_append, List.nil_append,
            List.cons_lt_cons_iff] <;>
          omega
      · rw [if_neg hThree,
          if_neg (show ¬ right < 0x10000 by omega)]
        simp only [List.cons_append, List.nil_append,
          List.cons_lt_cons_iff]
        omega

theorem codeBytes_ne_nil (code : Nat) :
    codeBytes code ≠ [] := by
  unfold codeBytes
  split
  · exact List.cons_ne_nil _ _
  · split
    · exact List.cons_ne_nil _ _
    · split
      · exact List.cons_ne_nil _ _
      · exact List.cons_ne_nil _ _

theorem append_lt_append_left
    {left right : List Nat}
    (hLess : left < right)
    (start : List Nat) :
    start ++ left < start ++ right := by
  induction start with
  | nil => exact hLess
  | cons head tail ih =>
    exact List.cons_lt_cons_iff.mpr (Or.inr ⟨rfl, ih⟩)

theorem bytesOf_lt
    {left right : List Char}
    (hLess : left < right) :
    bytesOf left < bytesOf right := by
  induction left generalizing right with
  | nil =>
    cases right with
    | nil => exact absurd hLess (List.lt_irrefl [])
    | cons char rest =>
      have hSome :
          bytesOf (char :: rest) ≠ [] := by
        unfold bytesOf
        rw [List.flatMap_cons]
        exact
          List.append_ne_nil_of_left_ne_nil (codeBytes_ne_nil _) _
      cases hBytes : bytesOf (char :: rest) with
      | nil => exact absurd hBytes hSome
      | cons byte bytes => exact List.nil_lt_cons _ _
  | cons char rest ih =>
    cases right with
    | nil => exact absurd hLess (List.not_lt_nil _)
    | cons other others =>
      unfold bytesOf
      rw [List.flatMap_cons, List.flatMap_cons]
      rcases List.cons_lt_cons_iff.mp hLess with
        hChar | ⟨hSame, hRest⟩
      · exact codeBytes_lt hChar (toNat_lt other) _ _
      · rw [hSame]
        exact append_lt_append_left (ih hRest) _

/- Comparing bytes is comparing characters. -/
theorem bytesOf_lt_iff
    {left right : List Char} :
    bytesOf left < bytesOf right ↔ left < right := by
  refine ⟨?_, bytesOf_lt⟩
  intro hBytes
  rcases lt_trichotomy left right with
    hLess | hSame | hGreater
  · exact hLess
  · rw [hSame] at hBytes
    exact absurd hBytes (List.lt_irrefl _)
  · exact absurd (bytesOf_lt hGreater) (lt_asymm hBytes)

----------
-- Prefixes
----------

/- The texts between a prefix and its greatest extension. -/
theorem between_iff_prefix
    {α : Type}
    [LinearOrder α]
    {greatest : α}
    (hGreatest : ∀ letter, letter ≤ greatest)
    {start text : List α} :
    ¬ text < start ∧ text < start ++ [greatest] ↔
      start <+: text ∧ ¬ start ++ [greatest] <+: text := by
  induction start generalizing text with
  | nil =>
    cases text with
    | nil => simp
    | cons letter rest =>
      have hFirst :
          letter :: rest < [greatest] ↔ letter ≠ greatest := by
        rw [List.cons_lt_cons_iff]
        constructor
        · rintro (hLess | ⟨_, hNil⟩)
          · exact ne_of_lt hLess
          · exact absurd hNil (List.not_lt_nil _)
        · intro hOther
          exact Or.inl (lt_of_le_of_ne (hGreatest _) hOther)
      rw [List.nil_append, hFirst]
      simp [eq_comm]
  | cons head tail ih =>
    cases text with
    | nil => simp
    | cons letter rest =>
      rw [List.cons_append, List.cons_lt_cons_iff,
        List.cons_lt_cons_iff, List.cons_prefix_cons,
        List.cons_prefix_cons]
      by_cases hSame : letter = head
      · subst hSame
        have hTail := @ih rest
        have hIrrefl := lt_irrefl letter
        tauto
      · have hOther : head ≠ letter := fun hEq =>
          hSame hEq.symm
        rcases lt_or_gt_of_ne hSame with hLess | hGreater
        · tauto
        · have hNot := lt_asymm hGreater
          tauto

end TextOrder

end ArktsServer
