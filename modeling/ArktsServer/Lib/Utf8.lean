import Mathlib.Data.List.Basic
import Mathlib.Tactic.Common

/-
  Strings and the bytes that encode them: reading bytes
  back succeeds exactly on the encoding of a string.

  Main declarations:
    * `Utf8.asBytes`, `Utf8.fromUtf8`
    * `Utf8.fromUtf8_eq_some_iff`
-/

namespace ArktsServer

namespace Utf8

def charBytes (chars : List Char) : List UInt8 :=
  chars.flatMap String.utf8EncodeChar

/- `str::as_bytes`. -/
def asBytes (text : String) : List UInt8 :=
  charBytes text.toList

/- `String::from_utf8`. -/
def fromUtf8 (bytes : List UInt8) : Option String :=
  String.fromUTF8? bytes.toByteArray

theorem charBytes_append
    (left right : List Char) :
    charBytes (left ++ right) =
      charBytes left ++ charBytes right :=
  List.flatMap_append

theorem asBytes_ofList (chars : List Char) :
    asBytes (String.ofList chars) = charBytes chars := by
  unfold asBytes
  rw [String.toList_ofList]

theorem toByteArray_asBytes (text : String) :
    (asBytes text).toByteArray = text.toByteArray := by
  rw [← String.utf8Encode_toList]
  rfl

theorem fromUtf8_eq_some_iff
    {bytes : List UInt8}
    {text : String} :
    fromUtf8 bytes = some text ↔ bytes = asBytes text := by
  have hData :
      ∀ left right : List UInt8,
        left.toByteArray = right.toByteArray → left = right := by
    intro left right hSame
    have hArrays := congrArg ByteArray.data hSame
    simpa using hArrays
  unfold fromUtf8 String.fromUTF8?
  constructor
  · intro hText
    split at hText
    · cases hText
      apply hData
      rw [toByteArray_asBytes]
      rfl
    · cases hText
  · rintro rfl
    rw [toByteArray_asBytes, dif_pos text.isValidUTF8]
    rfl

theorem fromUtf8_asBytes (text : String) :
    fromUtf8 (asBytes text) = some text :=
  fromUtf8_eq_some_iff.mpr rfl

end Utf8

end ArktsServer
