/-!
# Byte Strings

A class file is a sequence of bytes in which every number of more than one
byte comes with its most significant byte first. This module fixes that order
once: a writer and a reader for each width, and the split of a byte string
after a given count, which is the only way the readers take bytes off.

## Main definitions

* `Bytes`: A byte string.
* `Bytes.ofU16`, `Bytes.ofU32`, `Bytes.ofU64`: A number, most significant byte first.
* `Bytes.toU16`, `Bytes.toU32`, `Bytes.toU64`: The number back from its parts.
* `Bytes.splitExact`: The first `n` bytes and the rest, if there are that many.
-/

namespace JvmFold

/-- A byte string. -/
abbrev Bytes := List UInt8

namespace Bytes

/-- Two bytes of a 16-bit number, most significant first. -/
def ofU16 (n : UInt16) : Bytes :=
  [(n >>> 8).toUInt8, n.toUInt8]

/-- Four bytes of a 32-bit number, most significant first. -/
def ofU32 (n : UInt32) : Bytes :=
  [(n >>> 24).toUInt8, (n >>> 16).toUInt8, (n >>> 8).toUInt8, n.toUInt8]

/-- Eight bytes of a 64-bit number, most significant first. -/
def ofU64 (n : UInt64) : Bytes :=
  ofU32 (n >>> 32).toUInt32 ++ ofU32 n.toUInt32

/-- The 16-bit number of two bytes. -/
def toU16 (a b : UInt8) : UInt16 :=
  a.toUInt16 <<< 8 ||| b.toUInt16

/-- The 32-bit number of four bytes. -/
def toU32 (a b c d : UInt8) : UInt32 :=
  a.toUInt32 <<< 24 ||| b.toUInt32 <<< 16 ||| c.toUInt32 <<< 8 ||| d.toUInt32

/-- The 64-bit number of two halves. -/
def toU64 (high low : UInt32) : UInt64 :=
  high.toUInt64 <<< 32 ||| low.toUInt64

/-- Two bytes for a count, which is written modulo 65536. -/
def ofCount (n : Nat) : Bytes :=
  ofU16 n.toUInt16

/-- The first `n` elements and the rest, or nothing if there are fewer. -/
def splitExact {α : Type} (n : Nat) (l : List α) : Option (List α × List α) :=
  go [] n l
where
  /-- Moves `n` elements over to `acc`, which holds those already taken in reverse. -/
  go (acc : List α) : Nat → List α → Option (List α × List α)
    | 0, rest => some (acc.reverse, rest)
    | _ + 1, [] => none
    | n + 1, b :: rest => go (b :: acc) n rest

/-- A byte string after its length in four bytes. -/
def lengthPrefixed (b : Bytes) : Bytes :=
  ofU32 b.length.toUInt32 ++ b

end Bytes

end JvmFold
