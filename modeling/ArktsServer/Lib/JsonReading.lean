import ArktsServer.Lib.JsonText

/-
  Texts that can be told apart: two texts that begin with a
  quoted string, with digits or with a list, and are equal,
  have equal beginnings.  Every text of JSON is well formed,
  so writing it in UTF-8 loses nothing.

  Main declarations:
    * `JsonText.toWellFormed`, `JsonText.WellFormed`
    * `JsonText.quote_inj`
    * `JsonText.naturalText_inj`
    * `JsonText.wellFormed_quote`
-/

namespace ArktsServer

namespace JsonText

----------
-- Well-Formed Texts
----------

/- Half of a surrogate pair. -/
def isSurrogate (unit : UInt16) : Bool :=
  isLeading unit || isTrailing unit

/- `String.prototype.toWellFormed`. -/
def toWellFormed : Units → Units
| [] => []
| [unit] => if isSurrogate unit then [0xfffd] else [unit]
| unit :: next :: rest =>
    if isLeading unit && isTrailing next then
      unit :: next :: toWellFormed rest
    else if isSurrogate unit then
      0xfffd :: toWellFormed (next :: rest)
    else
      unit :: toWellFormed (next :: rest)

/- A text in which every half has its other half. -/
inductive WellFormed : Units → Prop where
| nil : WellFormed []
| unit
    {unit : UInt16}
    {rest : Units}
    (hUnit : isSurrogate unit = false)
    (hRest : WellFormed rest) :
    WellFormed (unit :: rest)
| pair
    {unit next : UInt16}
    {rest : Units}
    (hPair : (isLeading unit && isTrailing next) = true)
    (hRest : WellFormed rest) :
    WellFormed (unit :: next :: rest)

variable {unit : UInt16}

theorem isLeading_of_plain
    (hUnit : isSurrogate unit = false) :
    isLeading unit = false :=
  (Bool.or_eq_false_iff.mp hUnit).1

theorem toWellFormed_plain
    (hUnit : isSurrogate unit = false)
    (rest : Units) :
    toWellFormed (unit :: rest) = unit :: toWellFormed rest := by
  cases rest with
  | nil => simp [toWellFormed, hUnit]
  | cons next rest =>
    rw [toWellFormed, isLeading_of_plain hUnit, hUnit]
    rfl

/- A well-formed text stays as it is. -/
theorem WellFormed.toWellFormed_eq
    {text : Units}
    (hText : WellFormed text) :
    toWellFormed text = text := by
  induction hText with
  | nil => rfl
  | unit hUnit _ ih => rw [toWellFormed_plain hUnit, ih]
  | pair hPair _ ih => rw [toWellFormed, if_pos hPair, ih]

theorem WellFormed.append
    {text more : Units}
    (hText : WellFormed text)
    (hMore : WellFormed more) :
    WellFormed (text ++ more) := by
  induction hText with
  | nil => exact hMore
  | unit hUnit _ ih => exact WellFormed.unit hUnit ih
  | pair hPair _ ih => exact WellFormed.pair hPair ih

theorem isSurrogate_of_ascii
    (hUnit : unit < 0x80) :
    isSurrogate unit = false := by
  have hFar : (0x80 : UInt16).toNat < 0xd800 := by decide
  have hSmall : unit.toNat < (0x80 : UInt16).toNat :=
    UInt16.lt_iff_toNat_lt.mp hUnit
  have hTrailing : isTrailing unit = false := by
    unfold isTrailing
    rw [Bool.and_eq_false_iff, decide_eq_false_iff_not]
    refine Or.inl fun hOrder => ?_
    have hLow : (0xdc00 : UInt16).toNat ≤ unit.toNat :=
      UInt16.le_iff_toNat_le.mp hOrder
    have hNumber : (0xdc00 : UInt16).toNat = 0xdc00 := rfl
    omega
  unfold isSurrogate
  rw [isLeading_of_ascii hUnit, hTrailing]
  rfl

theorem Ascii.wellFormed
    {text : Units}
    (hText : Ascii text) :
    WellFormed text := by
  induction text with
  | nil => exact WellFormed.nil
  | cons unit text ih =>
    rcases List.forall_mem_cons.mp hText with
      ⟨hUnit, hRest⟩
    exact WellFormed.unit (isSurrogate_of_ascii hUnit) (ih hRest)

theorem wellFormed_quoteUnit (unit : UInt16) :
    WellFormed (quoteUnit unit) := by
  have hLetter :
      ∀ letter : UInt16,
        letter < 0x80 → WellFormed [0x5c, letter] :=
    fun letter hLetter =>
      ((ascii_nil.cons hLetter).cons (by decide)).wellFormed
  unfold quoteUnit
  split
  · exact hLetter _ (by decide)
  split
  · exact hLetter _ (by decide)
  split
  · exact hLetter _ (by decide)
  split
  · exact hLetter _ (by decide)
  split
  · exact hLetter _ (by decide)
  split
  · rename_i hQuote
    refine hLetter _ ?_
    rcases hQuote with rfl | rfl
    · decide
    · decide
  split
  · exact (unicodeEscape_ascii unit).wellFormed
  · rename_i hPlain
    rw [not_or, not_or] at hPlain
    refine WellFormed.unit ?_ WellFormed.nil
    unfold isSurrogate
    rw [Bool.eq_false_of_not_eq_true hPlain.2.1,
      Bool.eq_false_of_not_eq_true hPlain.2.2]
    rfl

theorem wellFormed_quoteUnits (text : Units) :
    WellFormed (quoteUnits text) := by
  induction text using quoteUnits.induct with
  | case1 => exact WellFormed.nil
  | case2 unit => exact wellFormed_quoteUnit unit
  | case3 unit next rest hPair ih =>
    rw [quoteUnits, if_pos hPair]
    exact WellFormed.pair hPair ih
  | case4 unit next rest hPair ih =>
    rw [quoteUnits, if_neg hPair]
    exact (wellFormed_quoteUnit unit).append ih

/- Quoting escapes every half of a pair. -/
theorem wellFormed_quote (text : Units) :
    WellFormed (quote text) := by
  have hMark : isSurrogate 0x22 = false := by decide
  exact
    WellFormed.unit hMark
      ((wellFormed_quoteUnits text).append
        (WellFormed.unit hMark WellFormed.nil))

----------
-- Reading Strings
----------

/- The value of a hexadecimal digit. -/
def hexValue (unit : UInt16) : Nat :=
  if unit.toNat < 58 then unit.toNat - 48 else unit.toNat - 87

/- The unit that a letter after a backslash stands for. -/
def escapedUnit (letter : UInt16) : UInt16 :=
  if letter = 0x62 then 0x08
  else if letter = 0x74 then 0x09
  else if letter = 0x6e then 0x0a
  else if letter = 0x66 then 0x0c
  else if letter = 0x72 then 0x0d
  else letter

/- The unit that four hexadecimal digits stand for. -/
def readHex : Units → Option (UInt16 × Units)
| first :: second :: third :: fourth :: rest =>
    some
      (UInt16.ofNat
        (4096 * hexValue first + 256 * hexValue second
          + 16 * hexValue third + hexValue fourth),
        rest)
| _ => none

def readEscape : Units → Option (UInt16 × Units)
| [] => none
| letter :: rest =>
    if letter = 0x75 then readHex rest
    else some (escapedUnit letter, rest)

/- One unit of a quoted string, and what comes after it. -/
def readUnit : Units → Option (UInt16 × Units)
| [] => none
| unit :: rest =>
    if unit = 0x22 then none
    else if unit = 0x5c then readEscape rest
    else some (unit, rest)

/- The units up to the closing mark, and what comes after. -/
def readUnits : Nat → Units → Option (Units × Units)
| 0, _ => none
| fuel + 1, text =>
    if text.head? = some 0x22 then
      some ([], text.tail)
    else
      (readUnit text).bind fun read =>
        (readUnits fuel read.2).map fun units =>
          (read.1 :: units.1, units.2)

theorem hexValue_hexUnit
    {digit : Nat}
    (hDigit : digit < 16) :
    hexValue (hexUnit digit) = digit := by
  have hAll :
      ∀ digit : Fin 16,
        hexValue (hexUnit digit.val) = digit.val := by
    decide
  exact hAll ⟨digit, hDigit⟩

theorem readUnit_escape (unit : UInt16) (rest : Units) :
    readUnit (unicodeEscape unit ++ rest) = some (unit, rest) := by
  have hUnit : unit.toNat < 65536 := unit.toNat_lt
  have hSum :
      4096 * (unit.toNat / 4096)
          + 256 * (unit.toNat / 256 % 16)
          + 16 * (unit.toNat / 16 % 16) + unit.toNat % 16 =
        unit.toNat := by
    omega
  change
    some
        (UInt16.ofNat
          (4096 * hexValue (hexUnit (unit.toNat / 4096))
            + 256 * hexValue (hexUnit (unit.toNat / 256 % 16))
            + 16 * hexValue (hexUnit (unit.toNat / 16 % 16))
            + hexValue (hexUnit (unit.toNat % 16))),
          rest) =
      some (unit, rest)
  rw [hexValue_hexUnit (by omega), hexValue_hexUnit (by omega),
    hexValue_hexUnit (by omega), hexValue_hexUnit (by omega),
    hSum, UInt16.ofNat_toNat]

theorem readUnit_plain
    (hMark : unit ≠ 0x22)
    (hSlash : unit ≠ 0x5c)
    (rest : Units) :
    readUnit (unit :: rest) = some (unit, rest) := by
  rw [readUnit, if_neg hMark, if_neg hSlash]

theorem readUnit_quoteUnit (unit : UInt16) (rest : Units) :
    readUnit (quoteUnit unit ++ rest) = some (unit, rest) := by
  unfold quoteUnit
  split
  · rename_i hUnit
    rw [hUnit]
    rfl
  split
  · rename_i hUnit
    rw [hUnit]
    rfl
  split
  · rename_i hUnit
    rw [hUnit]
    rfl
  split
  · rename_i hUnit
    rw [hUnit]
    rfl
  split
  · rename_i hUnit
    rw [hUnit]
    rfl
  split
  · rename_i hUnit
    rcases hUnit with rfl | rfl
    · rfl
    · rfl
  split
  · exact readUnit_escape unit rest
  · rename_i hMarks hPlain
    rw [not_or] at hMarks
    exact readUnit_plain hMarks.1 hMarks.2 rest

theorem readUnits_succ
    {fuel : Nat}
    {text rest : Units}
    (hRead : readUnit text = some (unit, rest)) :
    readUnits (fuel + 1) text =
      (readUnits fuel rest).map fun units =>
        (unit :: units.1, units.2) := by
  have hHead : text.head? ≠ some 0x22 := by
    intro hMark
    rcases List.head?_eq_some_iff.mp hMark with ⟨other, rfl⟩
    cases hRead
  rw [readUnits, if_neg hHead, hRead]
  rfl

theorem ne_of_surrogate
    {unit other : UInt16}
    (hUnit : isSurrogate unit = true)
    (hOther : isSurrogate other = false) :
    unit ≠ other := by
  intro hSame
  rw [hSame, hOther] at hUnit
  cases hUnit

/- A quoted string is read back. -/
theorem readUnits_quoteUnits
    (text rest : Units)
    {fuel : Nat}
    (hFuel : text.length < fuel) :
    readUnits fuel (quoteUnits text ++ 0x22 :: rest) =
      some (text, rest) := by
  have hEnd :
      ∀ {fuel : Nat}, 0 < fuel →
        readUnits fuel (0x22 :: rest) = some ([], rest) := by
    intro fuel hFuel
    cases fuel with
    | zero => exact absurd hFuel (Nat.lt_irrefl 0)
    | succ fuel => rfl
  induction text using quoteUnits.induct generalizing fuel with
  | case1 => exact hEnd (Nat.lt_of_le_of_lt (Nat.zero_le _) hFuel)
  | case2 unit =>
    cases fuel with
    | zero => exact absurd hFuel (Nat.not_lt_zero _)
    | succ fuel =>
      rw [quoteUnits,
        readUnits_succ (readUnit_quoteUnit unit _),
        hEnd (Nat.lt_of_succ_lt_succ hFuel)]
      rfl
  | case3 unit next others hPair ih =>
    simp only [List.length_cons] at hFuel
    rw [Bool.and_eq_true] at hPair
    have hMark : isSurrogate 0x22 = false := by decide
    have hSlash : isSurrogate 0x5c = false := by decide
    have hUnit : isSurrogate unit = true :=
      Bool.or_eq_true_iff.mpr (Or.inl hPair.1)
    have hNext : isSurrogate next = true :=
      Bool.or_eq_true_iff.mpr (Or.inr hPair.2)
    have hFirst :=
      @readUnit_plain unit (ne_of_surrogate hUnit hMark)
        (ne_of_surrogate hUnit hSlash)
    have hSecond :=
      @readUnit_plain next (ne_of_surrogate hNext hMark)
        (ne_of_surrogate hNext hSlash)
    rcases fuel with _ | _ | fuel
    · omega
    · omega
    · rw [quoteUnits, if_pos (Bool.and_eq_true_iff.mpr hPair),
        List.append_assoc, List.cons_append, List.cons_append,
        List.nil_append, readUnits_succ (hFirst _),
        readUnits_succ (hSecond _), ih (by omega)]
      rfl
  | case4 unit next others hPair ih =>
    cases fuel with
    | zero => exact absurd hFuel (Nat.not_lt_zero _)
    | succ fuel =>
      rw [quoteUnits, if_neg hPair, List.append_assoc,
        readUnits_succ (readUnit_quoteUnit unit _),
        ih (Nat.lt_of_succ_lt_succ hFuel)]
      rfl

/- Texts that begin with the same string, begin the same. -/
theorem quote_inj
    {text other rest more : Units}
    (hSame : quote text ++ rest = quote other ++ more) :
    text = other ∧ rest = more := by
  unfold quote at hSame
  simp only [List.cons_append, List.append_assoc,
    List.nil_append, List.cons.injEq, true_and] at hSame
  have hFirst :=
    @readUnits_quoteUnits text rest
      (text.length + other.length + 1) (by omega)
  have hSecond :=
    @readUnits_quoteUnits other more
      (text.length + other.length + 1) (by omega)
  rw [hSame, hSecond] at hFirst
  injection hFirst with hFirst
  injection hFirst with hText hRest
  exact ⟨hText.symm, hRest.symm⟩

----------
-- Reading Numbers
----------

/- `Number::toString` of an integer. -/
def integerText (value : Int) : Units :=
  if value < 0 then 45 :: naturalText value.natAbs
  else naturalText value.natAbs

theorem naturalText_chars (value : Nat) :
    (naturalText value).map (fun unit =>
        Char.ofNat unit.toNat) =
      Nat.toDigits 10 value := by
  unfold naturalText
  rw [List.map_map]
  refine Eq.trans (List.map_congr_left ?_) (List.map_id _)
  intro char hChar
  have hDigit :=
    Nat.isDigit_of_mem_toDigits (by decide) (by decide) hChar
  unfold Char.isDigit at hDigit
  rw [Bool.and_eq_true, decide_eq_true_iff,
    decide_eq_true_iff] at hDigit
  have hSmall : char.toNat ≤ 57 := hDigit.2
  have hMod : char.toNat % 65536 = char.toNat :=
    Nat.mod_eq_of_lt (by omega)
  change Char.ofNat (UInt16.ofNat char.toNat).toNat = char
  rw [UInt16.toNat_ofNat', hMod, Char.ofNat_toNat]

theorem naturalText_inj
    {value other : Nat}
    (hSame : naturalText value = naturalText other) :
    value = other := by
  have hDigits : Nat.toDigits 10 value = Nat.toDigits 10 other := by
    rw [← naturalText_chars, ← naturalText_chars, hSame]
  rw [← @Nat.ofDigitChars_ten_toDigits value, hDigits,
    Nat.ofDigitChars_ten_toDigits]

theorem integerText_inj
    {value other : Int}
    (hSame : integerText value = integerText other) :
    value = other := by
  have hSign : ∀ number : Nat, ∀ text,
      naturalText number ≠ 45 :: text := by
    intro number text hText
    have hChars := naturalText_chars number
    rw [hText, List.map_cons] at hChars
    have hMem :
        Char.ofNat (45 : UInt16).toNat ∈
          Nat.toDigits 10 number := by
      rw [← hChars]
      exact List.mem_cons_self
    have hDigit :=
      Nat.isDigit_of_mem_toDigits (by decide) (by decide) hMem
    exact absurd hDigit (by decide)
  unfold integerText at hSame
  split at hSame
  · split at hSame
    · injection hSame with _ hRest
      have hAbs := naturalText_inj hRest
      omega
    · exact absurd hSame.symm (hSign _ _)
  · split at hSame
    · exact absurd hSame (hSign _ _)
    · have hAbs := naturalText_inj hSame
      omega

/- What comes before the first comma. -/
theorem comma_inj
    {text other rest more : Units}
    (hText : (0x2c : UInt16) ∉ text)
    (hOther : (0x2c : UInt16) ∉ other)
    (hSame : text ++ 0x2c :: rest = other ++ 0x2c :: more) :
    text = other ∧ rest = more := by
  induction text generalizing other with
  | nil =>
    cases other with
    | nil => exact ⟨rfl, List.tail_eq_of_cons_eq hSame⟩
    | cons unit other =>
      injection hSame with hUnit _
      rw [hUnit] at hOther
      exact absurd List.mem_cons_self hOther
  | cons unit text ih =>
    cases other with
    | nil =>
      injection hSame with hUnit _
      rw [hUnit] at hText
      exact absurd List.mem_cons_self hText
    | cons next other =>
      injection hSame with hUnit hRest
      rcases
          ih (fun hMem => hText (List.mem_cons_of_mem _ hMem))
            (fun hMem => hOther (List.mem_cons_of_mem _ hMem))
            hRest
        with ⟨hUnits, hMore⟩
      exact ⟨by rw [hUnit, hUnits], hMore⟩

theorem comma_notMem_naturalText (value : Nat) :
    (0x2c : UInt16) ∉ naturalText value := by
  intro hMem
  have hChar :
      Char.ofNat (0x2c : UInt16).toNat ∈
        Nat.toDigits 10 value := by
    rw [← naturalText_chars]
    exact List.mem_map.mpr ⟨_, hMem, rfl⟩
  have hDigit :=
    Nat.isDigit_of_mem_toDigits (by decide) (by decide) hChar
  exact absurd hDigit (by decide)

theorem comma_notMem_integerText (value : Int) :
    (0x2c : UInt16) ∉ integerText value := by
  unfold integerText
  split
  · intro hMem
    rcases List.mem_cons.mp hMem with hSign | hRest
    · exact absurd hSign (by decide)
    · exact comma_notMem_naturalText _ hRest
  · exact comma_notMem_naturalText _

theorem integerText_ascii (value : Int) :
    Ascii (integerText value) := by
  unfold integerText
  split
  · exact (naturalText_ascii _).cons (by decide)
  · exact naturalText_ascii _

/- The text of `true` and of `false`. -/
def booleanText (value : Bool) : Units :=
  (JsonValue.boolean value).stringify

theorem booleanText_ascii (value : Bool) :
    Ascii (booleanText value) := by
  cases value with
  | false =>
    change Ascii [0x66, 0x61, 0x6c, 0x73, 0x65]
    repeat refine Ascii.cons (by decide) ?_
    exact ascii_nil
  | true =>
    change Ascii [0x74, 0x72, 0x75, 0x65]
    repeat refine Ascii.cons (by decide) ?_
    exact ascii_nil

theorem booleanText_inj
    {value other : Bool}
    {rest more : Units}
    (hSame : booleanText value ++ rest = booleanText other ++ more) :
    value = other := by
  cases value with
  | false =>
    cases other with
    | false => rfl
    | true =>
      injection hSame with hUnit _
      exact absurd hUnit (by decide)
  | true =>
    cases other with
    | false =>
      injection hSame with hUnit _
      exact absurd hUnit (by decide)
    | true => rfl

end JsonText

end ArktsServer
