/-!
# UTF-16 Code Units

Strings of the machine are sequences of 16-bit units, and nothing forces the
surrogates among them to come in pairs. A `String` cannot hold an unpaired
surrogate, so text of the machine is kept as units and turned into a `String`
only where a name or a message is wanted.

Both directions go through code points: `codePoints` splits units from the
left into surrogate pairs and single units, and `ofCodePoint` writes one code
point back. An unpaired surrogate is a code point of its own, which is what
makes the split lossless.

## Main definitions

* `Units`: A text of the machine.
* `Utf16.codePoints`: The code points of a list of units.
* `Utf16.ofCodePoint`: The units of one code point.
* `Utf16.ofString`: The units of a `String`.
* `Utf16.toStringLossy`: A `String` with U+FFFD for each unpaired surrogate.
* `Utf16.toString?`: The `String`, if every surrogate is paired.
-/

namespace JvmFold

/-- A text of the machine: its 16-bit units. -/
abbrev Units := Array UInt16

namespace Utf16

/-- Whether the unit is the first half of a surrogate pair. -/
def isHigh (u : UInt16) : Bool :=
  0xD800 ≤ u && u ≤ 0xDBFF

/-- Whether the unit is the second half of a surrogate pair. -/
def isLow (u : UInt16) : Bool :=
  0xDC00 ≤ u && u ≤ 0xDFFF

/-- The code point that a surrogate pair stands for. -/
def pairValue (high low : UInt16) : Nat :=
  0x10000 + (high.toNat - 0xD800) * 0x400 + (low.toNat - 0xDC00)

/-- The units of a code point: one below U+10000, a surrogate pair from there on. -/
def ofCodePoint (n : Nat) : List UInt16 :=
  if n < 0x10000 then [n.toUInt16]
  else [(0xD800 + (n - 0x10000) / 0x400).toUInt16, (0xDC00 + (n - 0x10000) % 0x400).toUInt16]

/-- The code points of a list of units, from the left; an unpaired surrogate stands alone. -/
def codePoints (units : List UInt16) : List Nat :=
  go [] units
where
  /-- Puts the code points of the remaining units in front of `acc`, last one first. -/
  go (acc : List Nat) : List UInt16 → List Nat
    | [] => acc.reverse
    | [u] => (u.toNat :: acc).reverse
    | u :: v :: rest =>
      if isHigh u && isLow v then go (pairValue u v :: acc) rest
      else go (u.toNat :: acc) (v :: rest)

/-- Whether the code point is a surrogate, hence no character. -/
def isSurrogate (n : Nat) : Bool :=
  0xD800 ≤ n && n ≤ 0xDFFF

/-- The units of a `String`. -/
def ofString (s : String) : List UInt16 :=
  s.toList.flatMap fun c => ofCodePoint c.toNat

/-- The text as a `String`, with U+FFFD in place of each unpaired surrogate. -/
def toStringLossy (units : List UInt16) : String :=
  String.ofList ((codePoints units).map fun n =>
    if isSurrogate n then Char.ofNat 0xFFFD else Char.ofNat n)

/-- The text as a `String`, unless it has an unpaired surrogate. -/
def toString? (units : List UInt16) : Option String :=
  let points := codePoints units
  if points.any isSurrogate then none else some (String.ofList (points.map Char.ofNat))

end Utf16

/-- The units of a text. -/
def Units.ofString (s : String) : Units :=
  (Utf16.ofString s).toArray

/-- The text as a `String`, with U+FFFD in place of each unpaired surrogate. -/
def Units.toStringLossy (u : Units) : String :=
  Utf16.toStringLossy u.toList

end JvmFold
