/-!
# Words

Counting the bits of a natural number as a word of a given width, and division
of words with sign. Words divide with the quotient rounded to zero, so rounding
down takes a correction, for which the sign of two words together is that of
their exclusive disjunction.

## Main definitions

* `Word.bitCount`, `Word.leadingZeros`, `Word.trailingZeros`: The counts.
* `Word.floorDiv`, `Word.floorMod`: Division with the quotient rounded down.
-/

namespace JvmFold

namespace Word

/-- How many of the lowest `width` bits are set. -/
def bitCount (width n : Nat) : Nat :=
  (List.range width).countP n.testBit

/-- How many bits in front of the highest set one are zero. -/
def leadingZeros (width n : Nat) : Nat :=
  if n = 0 then width else width - 1 - n.log2

/-- How many bits behind the lowest set one are zero. -/
def trailingZeros (width n : Nat) : Nat :=
  ((List.range width).find? n.testBit).getD width

/-- The quotient rounded down, from a remainder of the quotient rounded to zero: that quotient, or
    one less if the remainder is not zero and the signs differ. -/
def floorDiv {w : Nat} (a b remainder : BitVec w) : BitVec w :=
  if remainder ≠ 0 ∧ (a ^^^ b).slt 0 then a.sdiv b - 1 else a.sdiv b

/-- The remainder of the quotient rounded down: that of the quotient rounded to zero, or this and
    the divisor if it is not zero and their signs differ. -/
def floorMod {w : Nat} (a b : BitVec w) : BitVec w :=
  let remainder := a.srem b
  if remainder ≠ 0 ∧ (remainder ^^^ b).slt 0 then remainder + b else remainder

end Word

end JvmFold
