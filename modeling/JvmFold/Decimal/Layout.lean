import JvmFold.Decimal.Shortest
import JvmFold.Number.Text

/-!
# Layouts of Decimals

The same digits are laid out in three ways: in messages about constants, in
messages that show a pool entry, and as the text of a number inside the
machine. They differ in when the positional form ends, in whether a lone
integer part keeps a point, and in the names of the numbers that are not
finite. A `Layout` records these decisions and `Layout.render` follows them.

Inside the machine digits and exponent come as a text of their own, the shortest
one in scientific form, which is read again to be laid out.

## Main definitions

* `Decimal.positional`: The digits around a point, without an exponent.
* `Decimal.scientific`: One digit in front of the point and an exponent.
* `Decimal.ofScientific`: The decimal that a text in scientific form shows.
* `Layout`: The decisions of one format.
* `Layout.rearrange`: A text in scientific form as the machine lays it out.
* `Layout.render`: The text of bits under a layout.
-/

namespace JvmFold

namespace Decimal

/-- The characters of digits. -/
def digitChars (digits : List Nat) : List Char :=
  digits.map Nat.digitChar

/-- The integer and the fractional digits of the positional form. -/
def split (d : Decimal) : List Nat × List Nat :=
  match d.exponent with
  | .ofNat e =>
    let whole := e + 1
    (d.digits.take whole ++ List.replicate (whole - d.digits.length) 0, d.digits.drop whole)
  | .negSucc e => ([0], List.replicate e 0 ++ d.digits)

/-- A point and the fraction; an empty fraction is a zero if `keepPoint` is set and left out
    together with the point otherwise. -/
def fractionChars (fraction : List Nat) (keepPoint : Bool) : List Char :=
  match fraction with
  | [] => if keepPoint then ['.', '0'] else []
  | _ :: _ => '.' :: digitChars fraction

/-- The digits around a point, without an exponent. -/
def positional (d : Decimal) (keepPoint : Bool) : String :=
  String.ofList (digitChars d.split.1 ++ fractionChars d.split.2 keepPoint)

/-- One digit in front of the point, and the exponent behind a mark. -/
def scientific (d : Decimal) (keepPoint : Bool) (mark : Char) : String :=
  String.ofList
      (digitChars (d.digits.take 1) ++ fractionChars (d.digits.drop 1) keepPoint ++ [mark])
    ++ toString d.exponent

/-- The decimal that a text in scientific form shows: the digits in front of the first `e`, and the
    exponent behind it, which is zero if there is no integer of 32 bits. -/
def ofScientific (text : List Char) : Decimal :=
  let digits := (text.takeWhile (· != 'e')).filter Char.isDigit
  let exponent := (text.dropWhile (· != 'e')).drop 1
  ⟨digits.map fun c => c.toNat - '0'.toNat,
    (Radix.parse? 10 Int32.minValue.toInt Int32.maxValue.toInt exponent).getD 0⟩

end Decimal

/-- The decisions of one format for floating-point numbers. -/
structure Layout where
  /-- The least exponent that is written positionally, if there is a limit. -/
  least : Option Int
  /-- The greatest exponent that is written positionally, if there is a limit. -/
  greatest : Option Int
  /-- Whether an integer in the positional form ends in a point and a zero. -/
  pointPositional : Bool
  /-- Whether one digit in the scientific form is followed by a point and a zero. -/
  pointScientific : Bool
  /-- The letter in front of the exponent. -/
  mark : Char
  /-- The name of infinity. -/
  infinity : String

namespace Layout

/-- In constants: always positional, and an integer without a point. -/
def constant : Layout := ⟨none, none, false, false, 'e', "inf"⟩

/-- In pool entries: positional from 1e-4 to below 1e16, and an integer keeps a point there. -/
def entry : Layout := ⟨some (-4), some 15, true, false, 'e', "inf"⟩

/-- Inside the machine: positional from 1e-3 to below 1e7, and a point in both forms. -/
def machine : Layout := ⟨some (-3), some 6, true, true, 'E', "Infinity"⟩

/-- Whether a number of this exponent is written positionally. -/
def isPositional (l : Layout) (exponent : Int) : Bool :=
  l.least.all (· ≤ exponent) && l.greatest.all (exponent ≤ ·)

/-- The text of a positive decimal. -/
def magnitude (l : Layout) (d : Decimal) : String :=
  if l.isPositional d.exponent then d.positional l.pointPositional
  else d.scientific l.pointScientific l.mark

/-- A text behind a minus sign if `negative` is set. -/
def signed (negative : Bool) (text : String) : String :=
  if negative then "-" ++ text else text

/-- A text in scientific form with a sign, written positionally if `plain` is set. -/
def rearrange (negative plain : Bool) (text : List Char) : String :=
  let d := Decimal.ofScientific text
  signed negative <|
    if plain then d.positional machine.pointPositional
    else d.scientific machine.pointScientific machine.mark

/-- The text of the number with the given bits. -/
def render (l : Layout) (f : FloatFormat) (bits : Nat) : String :=
  match f.view bits with
  | .notANumber => "NaN"
  | .infinite negative => signed negative l.infinity
  | .finite negative m e =>
    signed negative <|
      if m = 0 then l.magnitude ⟨[0], 0⟩ else l.magnitude (Decimal.shortest f m e)

/-- The text of a single-precision number. -/
def single (l : Layout) (bits : Bits32) : String :=
  l.render .single bits.toNat

/-- The text of a double-precision number. -/
def double (l : Layout) (bits : Bits64) : String :=
  l.render .double bits.toNat

end Layout

end JvmFold
