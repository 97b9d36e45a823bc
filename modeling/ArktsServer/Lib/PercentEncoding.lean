import ArktsServer.Lib.Utf8

/-
  Percent-encoding of bytes: a byte is kept as its character
  or written as three characters.  Two encoders that both
  encode the percent sign write the same text exactly when
  they keep the same bytes of it.  Decoding undoes encoding,
  if it allows the bytes that were not kept.

  Main declarations:
    * `PercentEncoding.percentEncode`
    * `PercentEncoding.Encoder`
    * `PercentEncoding.percentEncode_eq_iff`
    * `PercentEncoding.percentDecode`
    * `PercentEncoding.percentDecode_encode`
-/

namespace ArktsServer

namespace PercentEncoding

def hexDigit (value : Nat) : Char :=
  if value < 10 then
    Char.ofNat (0x30 + value)
  else
    Char.ofNat (0x37 + value)

/- Two upper-case digits behind a percent sign. -/
def percentByte (byte : Nat) : List Char :=
  ['%', hexDigit (byte / 16), hexDigit (byte % 16)]

def encodeByte (keep : Nat → Bool) (byte : Nat) :
    List Char :=
  if keep byte then [Char.ofNat byte] else percentByte byte

def percentEncode
    (keep : Nat → Bool)
    (bytes : List Nat) : List Char :=
  bytes.flatMap (encodeByte keep)

/- An encoder keeps ASCII, but not the percent sign. -/
structure Encoder (keep : Nat → Bool) : Prop where
  ascii : ∀ byte, keep byte = true → byte < 128
  percent : keep 0x25 = false

theorem toNat_ofNat :
    ∀ byte < 128, (Char.ofNat byte).toNat = byte := by
  decide

theorem encodeByte_eq_iff
    {left right : Nat → Bool}
    (hLeft : Encoder left)
    (hRight : Encoder right)
    {byte : Nat}
    (leftRest rightRest : List Char) :
    encodeByte left byte ++ leftRest
        = encodeByte right byte ++ rightRest ↔
      left byte = right byte ∧ leftRest = rightRest := by
  have hKept :
      ∀ {keep : Nat → Bool},
        Encoder keep → keep byte = true →
        Char.ofNat byte ≠ '%' := by
    intro keep hKeep hByte hSame
    have hAscii := hKeep.ascii byte hByte
    have hPercent : byte = 0x25 := by
      have hNat := toNat_ofNat byte hAscii
      rw [hSame] at hNat
      exact hNat.symm
    rw [hPercent, hKeep.percent] at hByte
    cases hByte
  unfold encodeByte percentByte
  cases hOne : left byte with
  | true =>
    cases hOther : right byte with
    | true => simp
    | false =>
      have hNe := hKept hLeft hOne
      simp [hNe]
  | false =>
    cases hOther : right byte with
    | true =>
      have hNe := Ne.symm (hKept hRight hOther)
      simp [hNe]
    | false => simp

/- The first byte kept by one of two encoders tells. -/
theorem percentEncode_eq_iff
    {left right : Nat → Bool}
    (hLeft : Encoder left)
    (hRight : Encoder right)
    {bytes : List Nat} :
    percentEncode left bytes = percentEncode right bytes ↔
      ∀ byte ∈ bytes, left byte = right byte := by
  induction bytes with
  | nil => simp [percentEncode]
  | cons byte bytes ih =>
    unfold percentEncode at ih ⊢
    rw [List.flatMap_cons, List.flatMap_cons,
      encodeByte_eq_iff hLeft hRight, ih,
      List.forall_mem_cons]

----------
-- Decoding
----------

/- `to_digit(16)` of a byte. -/
def hexValue (byte : UInt8) : Option Nat :=
  let code := byte.toNat
  if 0x30 ≤ code ∧ code ≤ 0x39 then
    some (code - 0x30)
  else if 0x41 ≤ code ∧ code ≤ 0x46 then
    some (code - 0x37)
  else if 0x61 ≤ code ∧ code ≤ 0x66 then
    some (code - 0x57)
  else
    none

/- The byte behind a percent sign, if it may be encoded. -/
def decodeByte
    (allow : UInt8 → Bool)
    (high low : UInt8) : Option UInt8 := do
  let left ← hexValue high
  let right ← hexValue low
  let byte := UInt8.ofNat (left * 16 + right)
  if allow byte then some byte else none

def percentDecode
    (allow : UInt8 → Bool) :
    List UInt8 → Option (List UInt8)
| [] => some []
| byte :: rest =>
    if byte = 0x25 then
      match rest with
      | high :: low :: rest => do
          let decoded ← decodeByte allow high low
          let others ← percentDecode allow rest
          return decoded :: others
      | _ => none
    else do
      let others ← percentDecode allow rest
      return byte :: others

theorem percentDecode_plain
    (allow : UInt8 → Bool)
    {byte : UInt8}
    (hPlain : byte ≠ 0x25)
    (rest : List UInt8) :
    percentDecode allow (byte :: rest) =
      (percentDecode allow rest).map (byte :: ·) := by
  conv =>
    lhs
    unfold percentDecode
  rw [if_neg hPlain]
  cases percentDecode allow rest <;> rfl

variable {allow : UInt8 → Bool}

theorem percentDecode_escape
    {high low byte : UInt8}
    (hByte : decodeByte allow high low = some byte)
    (rest : List UInt8) :
    percentDecode allow (0x25 :: high :: low :: rest) =
      (percentDecode allow rest).map (byte :: ·) := by
  rw [percentDecode, if_pos rfl]
  simp only [hByte, Option.bind_eq_bind, Option.bind_some]
  cases percentDecode allow rest <;> rfl

/- The bytes of the text that an encoder writes. -/
def encodedBytes
    (keep : Nat → Bool)
    (bytes : List UInt8) : List UInt8 :=
  Utf8.charBytes
    (percentEncode keep (bytes.map UInt8.toNat))

theorem charBytes_ascii :
    ∀ byte < 128,
      Utf8.charBytes [Char.ofNat byte] =
        [UInt8.ofNat byte] := by
  decide +kernel

theorem decodeByte_percentByte :
    ∀ byte < 256,
      Utf8.charBytes (percentByte byte) =
          [0x25, UInt8.ofNat (hexDigit (byte / 16)).toNat,
            UInt8.ofNat (hexDigit (byte % 16)).toNat] ∧
        hexValue (UInt8.ofNat (hexDigit (byte / 16)).toNat)
          = some (byte / 16) ∧
        hexValue (UInt8.ofNat (hexDigit (byte % 16)).toNat)
          = some (byte % 16) := by
  decide +kernel

theorem encodedBytes_cons
    (keep : Nat → Bool)
    (byte : UInt8)
    (bytes : List UInt8) :
    encodedBytes keep (byte :: bytes) =
      Utf8.charBytes (encodeByte keep byte.toNat)
        ++ encodedBytes keep bytes := by
  unfold encodedBytes percentEncode
  rw [List.map_cons, List.flatMap_cons, Utf8.charBytes_append]

variable {keep : Nat → Bool}

/- One step of the decoder behind one of an encoder. -/
theorem percentDecode_encodeByte
    (hKeep : Encoder keep)
    {byte : UInt8}
    (hByte : keep byte.toNat = true ∨ allow byte = true)
    (rest : List UInt8) :
    percentDecode allow
        (Utf8.charBytes (encodeByte keep byte.toNat) ++ rest)
      = (percentDecode allow rest).map (byte :: ·) := by
  unfold encodeByte
  by_cases hKept : keep byte.toNat = true
  · have hAscii := hKeep.ascii _ hKept
    have hPercent : byte ≠ 0x25 := by
      rintro rfl
      rw [show (0x25 : UInt8).toNat = 0x25 from rfl,
        hKeep.percent] at hKept
      cases hKept
    rw [if_pos hKept, charBytes_ascii _ hAscii,
      UInt8.ofNat_toNat, List.singleton_append]
    exact percentDecode_plain allow hPercent rest
  · have hAllow : allow byte = true :=
      hByte.resolve_left hKept
    have hLt : byte.toNat < 256 := byte.toNat_lt
    rcases decodeByte_percentByte _ hLt with
      ⟨hText, hHigh, hLow⟩
    rw [if_neg hKept, hText]
    apply percentDecode_escape
    unfold decodeByte
    simp only [hHigh, hLow, Option.bind_eq_bind, Option.bind_some]
    rw [Nat.mul_comm, Nat.div_add_mod, UInt8.ofNat_toNat,
      if_pos hAllow]

theorem percentDecode_encode
    (hKeep : Encoder keep)
    {bytes : List UInt8}
    (hBytes :
      ∀ byte ∈ bytes,
        keep byte.toNat = true ∨ allow byte = true) :
    percentDecode allow (encodedBytes keep bytes) =
      some bytes := by
  induction bytes with
  | nil => rfl
  | cons byte bytes ih =>
    rw [List.forall_mem_cons] at hBytes
    rw [encodedBytes_cons,
      percentDecode_encodeByte hKeep hBytes.1,
      ih hBytes.2]
    rfl

/- Different bytes are encoded differently. -/
theorem encodedBytes_injective
    (hKeep : Encoder keep)
    {left right : List UInt8}
    (hSame : encodedBytes keep left = encodedBytes keep right) :
    left = right := by
  have hAll :
      ∀ bytes : List UInt8,
        percentDecode (fun _ => true)
            (encodedBytes keep bytes)
          = some bytes :=
    fun bytes =>
      percentDecode_encode hKeep fun _ _ => Or.inr rfl
  have hLeft := hAll left
  rw [hSame, hAll right] at hLeft
  exact (Option.some.inj hLeft).symm

end PercentEncoding

end ArktsServer
