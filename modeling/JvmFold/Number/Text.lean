import JvmFold.Number.Float

/-!
# Numbers as Text

Integers in a radix from 2 to 36 and decimal floating-point numbers, as the
machine reads and writes them. Digits are ASCII digits and letters of either
case. A decimal is read exactly: its digits and exponent make a rational
number, and the nearest floating-point number is the answer. An exponent stops
to grow at a limit, and one beyond what any number needs is not multiplied out.

## Main definitions

* `Radix.digit?`, `Radix.parse?`, `Radix.render`: Integers.
* `DecimalText`: A decimal by its digits and exponent.
* `DecimalText.parse?`, `DecimalText.round`: Floating-point numbers.
-/

namespace JvmFold

namespace Radix

/-- The value of a digit below the radix. -/
def digit? (radix : Nat) (c : Char) : Option Nat :=
  let value :=
    if '0' ≤ c ∧ c ≤ '9' then some (c.toNat - '0'.toNat)
    else if 'a' ≤ c ∧ c ≤ 'z' then some (c.toNat - 'a'.toNat + 10)
    else if 'A' ≤ c ∧ c ≤ 'Z' then some (c.toNat - 'A'.toNat + 10)
    else none
  value.filter (· < radix)

/-- The number of a list of digits, unless it passes the limit on the way. -/
def magnitude? (radix limit : Nat) (acc : Nat) : List Char → Option Nat
  | [] => some acc
  | c :: rest =>
    match digit? radix c with
    | none => none
    | some d =>
      let acc := acc * radix + d
      if limit < acc then none else magnitude? radix limit acc rest

/-- The sign of a text and what follows it. -/
def splitSign : List Char → Bool × List Char
  | '-' :: rest => (true, rest)
  | '+' :: rest => (false, rest)
  | cs => (false, cs)

/-- The integer between `low` and `high` that a text stands for: an optional sign and at least one
    digit. -/
def parse? (radix : Nat) (low high : Int) (text : List Char) : Option Int :=
  let (negative, digits) := splitSign text
  if digits.isEmpty then none
  else
    (magnitude? radix (if negative then (-low).toNat else high.toNat) 0 digits).map fun n =>
      if negative then -(n : Int) else n

/-- The digit of a value below 36. -/
def digitChar (n : Nat) : Char :=
  if n < 10 then Char.ofNat ('0'.toNat + n) else Char.ofNat ('a'.toNat + (n - 10))

/-- The digits of a natural number, in front of `acc`. Each round takes one digit off, so as many
    rounds as the number has bits suffice. -/
def digits (radix : Nat) : Nat → Nat → List Char → List Char
  | 0, _, acc => acc
  | rounds + 1, n, acc =>
    if n < radix then digitChar n :: acc
    else digits radix rounds (n / radix) (digitChar (n % radix) :: acc)

/-- The text of a natural number. -/
def renderNat (radix n : Nat) : List Char :=
  digits radix (n.log2 + 1) n []

/-- The text of an integer. -/
def render (radix : Nat) (v : Int) : List Char :=
  if v < 0 then '-' :: renderNat radix v.natAbs else renderNat radix v.natAbs

end Radix

/-- The number `digits · 10 ^ exponent`. -/
structure DecimalText where
  /-- The digits as one natural number. -/
  digits : Nat
  /-- How many digits there are behind the leading zeros. -/
  size : Nat
  /-- The power of ten. -/
  exponent : Int
deriving DecidableEq, Repr

namespace DecimalText

/-- The natural number of decimal digits. -/
def digitsValue (cs : List Char) : Nat :=
  cs.foldl (fun n c => n * 10 + (c.toNat - '0'.toNat)) 0

/-- Where an exponent stops to grow. -/
def exponentLimit : Nat :=
  0x10000

/-- The value of the digits of an exponent. Once it has come to the limit, the digits that follow
    count no more, so that no text makes it large. -/
def exponentValue (cs : List Char) : Nat :=
  cs.foldl (fun n c => if n < exponentLimit then n * 10 + (c.toNat - '0'.toNat) else n) 0

/-- An exponent with an optional sign. -/
def parseExponent? (cs : List Char) : Option Int :=
  let (negative, digits) := Radix.splitSign cs
  if digits.isEmpty || !digits.all Char.isDigit then none
  else some (if negative then -(exponentValue digits : Int) else exponentValue digits)

/-- Digits around an optional point, with an exponent. At least one digit is needed. -/
def parseMantissa? (cs : List Char) (exponent : Int) : Option DecimalText :=
  let whole := cs.takeWhile (· != '.')
  let fraction := (cs.dropWhile (· != '.')).drop 1
  let digits := whole ++ fraction
  if digits.isEmpty || !digits.all Char.isDigit then none
  else
    some ⟨digitsValue digits, (digits.dropWhile (· == '0')).length, exponent - fraction.length⟩

/-- A decimal without a sign: digits around an optional point and an optional exponent. -/
def parse? (cs : List Char) : Option DecimalText :=
  let isMark (c : Char) : Bool := c == 'e' || c == 'E'
  let mantissa := cs.takeWhile (!isMark ·)
  match cs.dropWhile (!isMark ·) with
  | [] => parseMantissa? mantissa 0
  | _ :: exponent => (parseExponent? exponent).bind (parseMantissa? mantissa)

/-- The bits of the nearest number. Beyond 10 ^ 400 everything is infinite and below 10 ^ -400
    everything is zero in both formats. -/
def round (d : DecimalText) (f : FloatFormat) : Nat :=
  let position := d.exponent + d.size
  if d.digits = 0 ∨ position < -400 then 0
  else if 400 < position then f.infinity false
  else f.nearest (d.digits * Nat.pow 10 d.exponent.toNat) (Nat.pow 10 (-d.exponent).toNat)

end DecimalText

end JvmFold
