import Mathlib.Data.List.Basic
import Mathlib.Order.Lattice

/-
  JSON texts as ECMAScript writes them, in UTF-16 code units,
  and their length in UTF-8.

  Main declarations:
    * `JsonText.utf8Length`, `JsonText.totalSize`
    * `JsonText.FiniteNumber`, `JsonText.quote`
    * `JsonText.JsonValue`, `JsonText.JsonValue.stringify`
-/

----------
-- Lengths
----------

namespace ArktsServer

namespace JsonText

/- The UTF-16 code units of a string. -/
abbrev Units := List UInt16

def isLeading (unit : UInt16) : Bool :=
  0xd800 ≤ unit && unit ≤ 0xdbff

def isTrailing (unit : UInt16) : Bool :=
  0xdc00 ≤ unit && unit ≤ 0xdfff

/- The bytes of a code unit outside a surrogate pair. -/
def unitLength (unit : UInt16) : Nat :=
  if unit < 0x80 then
    1
  else if unit < 0x800 then
    2
  else
    3

def utf8Length : Units → Nat
| [] => 0
| [unit] => unitLength unit
| unit :: next :: rest =>
    if isLeading unit && isTrailing next then
      4 + utf8Length rest
    else
      unitLength unit + utf8Length (next :: rest)

/- One byte for each unit. -/
def Ascii (text : Units) : Prop :=
  ∀ unit ∈ text, unit < 0x80

theorem isLeading_of_ascii
    {unit : UInt16}
    (hUnit : unit < 0x80) :
    isLeading unit = false := by
  unfold isLeading
  rw [Bool.and_eq_false_iff, decide_eq_false_iff_not]
  refine Or.inl fun hLeading => ?_
  have hOrder : (0xd800 : UInt16).toNat ≤ unit.toNat :=
    UInt16.le_iff_toNat_le.mp hLeading
  have hSmall : unit.toNat < (0x80 : UInt16).toNat :=
    UInt16.lt_iff_toNat_lt.mp hUnit
  have hFar :
      (0x80 : UInt16).toNat < (0xd800 : UInt16).toNat := by
    decide
  omega

theorem Ascii.cons
    {unit : UInt16}
    {text : Units}
    (hUnit : unit < 0x80)
    (hText : Ascii text) :
    Ascii (unit :: text) :=
  List.forall_mem_cons.mpr ⟨hUnit, hText⟩

theorem ascii_nil : Ascii [] := by
  intro unit hUnit
  cases hUnit

----------
-- Numbers
----------

/-
  A finite number by the shortest digits that read back as
  it: `0.digits` times ten to the power of `point`.
-/
structure FiniteNumber where
  negative : Bool
  digits : List (Fin 10)
  point : Int
  hFirst : digits.head? ≠ some 0
  hLast : digits.getLast? ≠ some 0
  hZero : digits = [] → point = 0
deriving DecidableEq

def digitUnit (digit : Fin 10) : UInt16 :=
  UInt16.ofNat (48 + digit.val)

def zeros (count : Int) : Units :=
  List.replicate count.toNat 48

/- The decimal digits of a natural number. -/
def naturalText (value : Nat) : Units :=
  (Nat.toDigits 10 value).map fun char =>
    UInt16.ofNat char.toNat

def exponentText (exponent : Int) : Units :=
  [101, if exponent < 0 then 45 else 43]
    ++ naturalText exponent.natAbs

/- `Number::toString` of a positive number. -/
def unsignedText
    (digits : List (Fin 10))
    (point : Int) :
    Units :=
  if (digits.length : Int) ≤ point ∧ point ≤ 21 then
    digits.map digitUnit ++ zeros (point - digits.length)
  else if 0 < point ∧ point ≤ 21 then
    (digits.take point.toNat).map digitUnit
      ++ 46 :: (digits.drop point.toNat).map digitUnit
  else if -6 < point ∧ point ≤ 0 then
    [48, 46] ++ zeros (-point) ++ digits.map digitUnit
  else if digits.length = 1 then
    digits.map digitUnit ++ exponentText (point - 1)
  else
    (digits.take 1).map digitUnit
      ++ 46 :: (digits.drop 1).map digitUnit
      ++ exponentText (point - 1)

namespace FiniteNumber

/- `Number::toString`; both zeros are written the same. -/
def text (number : FiniteNumber) : Units :=
  if number.digits = [] then
    [48]
  else if number.negative then
    45 :: unsignedText number.digits number.point
  else
    unsignedText number.digits number.point

end FiniteNumber

theorem naturalText_ascii (value : Nat) :
    Ascii (naturalText value) := by
  intro unit hUnit
  rcases List.mem_map.mp hUnit with ⟨char, hChar, rfl⟩
  have hDigit :=
    Nat.isDigit_of_mem_toDigits (by decide) (by decide) hChar
  unfold Char.isDigit at hDigit
  rw [Bool.and_eq_true, decide_eq_true_iff,
    decide_eq_true_iff] at hDigit
  have hSmall : char.toNat ≤ 57 := hDigit.2
  rw [UInt16.lt_iff_toNat_lt, UInt16.toNat_ofNat']
  have hMod : char.toNat % 65536 = char.toNat :=
    Nat.mod_eq_of_lt (by omega)
  change char.toNat % 65536 < 128
  omega

----------
-- Strings
----------

def hexUnit (digit : Nat) : UInt16 :=
  UInt16.ofNat (if digit < 10 then 48 + digit else 87 + digit)

def unicodeEscape (unit : UInt16) : Units :=
  [0x5c, 0x75, hexUnit (unit.toNat / 4096),
    hexUnit (unit.toNat / 256 % 16),
    hexUnit (unit.toNat / 16 % 16),
    hexUnit (unit.toNat % 16)]

/- `QuoteJSONString` at a unit outside a surrogate pair. -/
def quoteUnit (unit : UInt16) : Units :=
  if unit = 0x08 then
    [0x5c, 0x62]
  else if unit = 0x09 then
    [0x5c, 0x74]
  else if unit = 0x0a then
    [0x5c, 0x6e]
  else if unit = 0x0c then
    [0x5c, 0x66]
  else if unit = 0x0d then
    [0x5c, 0x72]
  else if unit = 0x22 ∨ unit = 0x5c then
    [0x5c, unit]
  else if unit < 0x20 ∨ isLeading unit ∨ isTrailing unit then
    unicodeEscape unit
  else
    [unit]

def quoteUnits : Units → Units
| [] => []
| [unit] => quoteUnit unit
| unit :: next :: rest =>
    if isLeading unit && isTrailing next then
      [unit, next] ++ quoteUnits rest
    else
      quoteUnit unit ++ quoteUnits (next :: rest)

/- `QuoteJSONString`. -/
def quote (text : Units) : Units :=
  0x22 :: (quoteUnits text ++ [0x22])

theorem hexUnit_ascii
    {digit : Nat}
    (hDigit : digit < 16) :
    hexUnit digit < 0x80 := by
  have hAll : ∀ digit : Fin 16, hexUnit digit.val < 0x80 := by
    decide
  exact hAll ⟨digit, hDigit⟩

theorem unicodeEscape_ascii (unit : UInt16) :
    Ascii (unicodeEscape unit) := by
  have hUnit : unit.toNat < 65536 := unit.toNat_lt
  unfold unicodeEscape
  refine Ascii.cons (by decide) ?_
  refine Ascii.cons (by decide) ?_
  refine Ascii.cons (hexUnit_ascii (by omega)) ?_
  refine Ascii.cons (hexUnit_ascii (by omega)) ?_
  refine Ascii.cons (hexUnit_ascii (by omega)) ?_
  exact ascii_nil.cons (hexUnit_ascii (by omega))

----------
-- Values
----------

inductive JsonValue where
| null
| boolean (value : Bool)
| number (value : FiniteNumber)
| string (text : Units)
| array (items : List JsonValue)
| record (fields : List (Units × JsonValue))

/- The texts with commas between them. -/
def commaJoin : List Units → Units
| [] => []
| [text] => text
| text :: more :: texts =>
    text ++ 0x2c :: commaJoin (more :: texts)

namespace JsonValue

mutual

/- `JSON.stringify`. -/
def stringify : JsonValue → Units
| null => [0x6e, 0x75, 0x6c, 0x6c]
| boolean true => [0x74, 0x72, 0x75, 0x65]
| boolean false => [0x66, 0x61, 0x6c, 0x73, 0x65]
| number value => value.text
| string text => quote text
| array items =>
    0x5b :: (commaJoin (stringifyItems items) ++ [0x5d])
| record fields =>
    0x7b :: (commaJoin (stringifyFields fields) ++ [0x7d])

def stringifyItems : List JsonValue → List Units
| [] => []
| item :: items => stringify item :: stringifyItems items

def stringifyFields :
    List (Units × JsonValue) → List Units
| [] => []
| (key, value) :: fields =>
    (quote key ++ 0x3a :: stringify value)
      :: stringifyFields fields

end

end JsonValue

----------
-- Sizes
----------

variable {α : Type}

/- The sum of the sizes of the items of a list. -/
def totalSize
    (size : α → Nat) :
    List α → Nat
| [] => 0
| item :: items => size item + totalSize size items

theorem totalSize_append
    (size : α → Nat)
    (items others : List α) :
    totalSize size (items ++ others) =
      totalSize size items + totalSize size others := by
  induction items with
  | nil => exact (Nat.zero_add _).symm
  | cons item items ih =>
    rw [List.cons_append, totalSize, totalSize, ih, Nat.add_assoc]

theorem totalSize_perm
    (size : α → Nat)
    {items others : List α}
    (hPerm : items.Perm others) :
    totalSize size items = totalSize size others := by
  induction hPerm with
  | nil => rfl
  | cons item _ ih => rw [totalSize, totalSize, ih]
  | swap first second items =>
    simp only [totalSize]
    omega
  | trans _ _ ihFirst ihSecond => rw [ihFirst, ihSecond]

end JsonText

end ArktsServer
