import JvmFold.Bytes.Basic
import JvmFold.Error
import JvmFold.Text.Utf16

/-!
# Modified UTF-8

Texts in a class file are encoded unit by unit: each UTF-16 unit takes one,
two or three bytes, a surrogate is encoded by itself, and the unit zero takes
two bytes so that no encoded text holds a zero byte. Decoding is more lenient
than encoding: the continuation bytes are masked and never checked, and every
byte below 0x80 is a unit, zero included.

## Main definitions

* `ModifiedUtf8.encodeUnits`, `ModifiedUtf8.decodeUnits`: Units to bytes and back.
* `ModifiedUtf8.encodedLength`: The length of the encoding.
* `ModifiedUtf8.encode`, `ModifiedUtf8.decode`: The same for a `String`.
-/

namespace JvmFold

namespace ModifiedUtf8

/-- The greatest length in bytes of a text in the constant pool. -/
def maxLength : Nat := 65535

/-- The bytes of one unit. -/
def encodeUnit (u : UInt16) : Bytes :=
  if 0x0001 ≤ u ∧ u ≤ 0x007F then [u.toUInt8]
  else if u ≤ 0x07FF then
    [(0xC0 : UInt8) ||| ((u >>> 6) &&& 0x1F).toUInt8, (0x80 : UInt8) ||| (u &&& 0x3F).toUInt8]
  else
    [(0xE0 : UInt8) ||| ((u >>> 12) &&& 0x0F).toUInt8,
      (0x80 : UInt8) ||| ((u >>> 6) &&& 0x3F).toUInt8,
      (0x80 : UInt8) ||| (u &&& 0x3F).toUInt8]

/-- The bytes of a list of units. -/
def encodeUnits (units : List UInt16) : Bytes :=
  units.flatMap encodeUnit

/-- The number of bytes of one unit. -/
def unitLength (u : UInt16) : Nat :=
  if 0x0001 ≤ u ∧ u ≤ 0x007F then 1 else if u ≤ 0x07FF then 2 else 3

/-- The number of bytes of a list of units. -/
def encodedLength (units : List UInt16) : Nat :=
  units.foldl (fun n u => n + unitLength u) 0

/-- The unit of a two-byte sequence. -/
def pairUnit (a b : UInt8) : UInt16 :=
  (a &&& 0x1F).toUInt16 <<< 6 ||| (b &&& 0x3F).toUInt16

/-- The unit of a three-byte sequence. -/
def tripleUnit (a b c : UInt8) : UInt16 :=
  (a &&& 0x0F).toUInt16 <<< 12 ||| (b &&& 0x3F).toUInt16 <<< 6 ||| (c &&& 0x3F).toUInt16

/-- The units of encoded bytes. The first byte of a sequence fixes its length. -/
def decodeUnits (bytes : Bytes) : Except Error (List UInt16) :=
  go [] bytes
where
  /-- Puts the units of the remaining bytes behind those of `acc`, which is in reverse. -/
  go (acc : List UInt16) : Bytes → Except Error (List UInt16)
    | [] => .ok acc.reverse
    | a :: rest =>
      if a &&& 0x80 == 0 then go (a.toUInt16 :: acc) rest
      else if a &&& 0xE0 == 0xC0 then
        match rest with
        | b :: rest => go (pairUnit a b :: acc) rest
        | [] => .error (.malformed .truncatedText)
      else if a &&& 0xF0 == 0xE0 then
        match rest with
        | b :: c :: rest => go (tripleUnit a b c :: acc) rest
        | _ => .error (.malformed .truncatedText)
      else .error (.malformed (.invalidLeadByte a))

/-- The bytes of a text. -/
def encode (text : String) : Bytes :=
  encodeUnits (Utf16.ofString text)

/-- The text of encoded bytes, with U+FFFD in place of each unpaired surrogate. -/
def decode (bytes : Bytes) : Except Error String :=
  Utf16.toStringLossy <$> decodeUnits bytes

end ModifiedUtf8

end JvmFold
