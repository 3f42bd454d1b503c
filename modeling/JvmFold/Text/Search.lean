import JvmFold.Text.Utf16

/-!
# Searching and Rearranging Units

Operations on texts of 16-bit units that need no knowledge of characters:
finding one text in another, replacing it, comparing, hashing, cutting off the
ends, and reversing without tearing surrogate pairs apart.

## Main definitions

* `Text.find?`, `Text.findLast?`: Positions of one text in another.
* `Text.replace`: Puts a text in the place of another, from the left.
* `Text.reversePairs`: Reverses by code points.
* `Text.compareUnits`, `Text.hashUnits`: Order and hash code.
-/

namespace JvmFold

namespace Text

/-- The first position at which the needle starts, counted from `i` on. -/
def findFrom (needle : List UInt16) (i : Nat) (units : List UInt16) : Option Nat :=
  if needle.isPrefixOf units then some i
  else
    match units with
    | [] => none
    | _ :: rest => findFrom needle (i + 1) rest

/-- The least position from `start` on at which the needle starts. -/
def find? (units needle : List UInt16) (start : Nat) : Option Nat :=
  if units.length < start then none else findFrom needle start (units.drop start)

/-- The last position at which the needle starts, counted from `i` on; `best` is the last one in
    front of `i`. -/
def findLastFrom (needle : List UInt16) (i : Nat) (best : Option Nat) (units : List UInt16) :
    Option Nat :=
  let best := if needle.isPrefixOf units then some i else best
  match units with
  | [] => best
  | _ :: rest => findLastFrom needle (i + 1) best rest

/-- The greatest position at which the needle starts. -/
def findLast? (units needle : List UInt16) : Option Nat :=
  findLastFrom needle 0 none units

/-- Replaces the occurrences of a text that is not empty. `skip` units belong to an occurrence that
    has been replaced, and `acc` holds the new text in reverse. -/
def replaceFrom (target replacement : List UInt16) (skip : Nat) (acc : List UInt16) :
    List UInt16 → List UInt16
  | [] => acc.reverse
  | u :: rest =>
    match skip with
    | skip + 1 => replaceFrom target replacement skip acc rest
    | 0 =>
      if target.isPrefixOf (u :: rest) then
        replaceFrom target replacement (target.length - 1) (replacement.reverse ++ acc) rest
      else replaceFrom target replacement 0 (u :: acc) rest

/-- The text with every occurrence of the target replaced, from the left and without overlap; an
    empty target occurs around every unit. -/
def replace (units target replacement : List UInt16) : List UInt16 :=
  if target.isEmpty then replacement ++ units.flatMap (· :: replacement)
  else replaceFrom target replacement 0 [] units

/-- Puts back in order the surrogate pairs that a reversal turned around. `acc` holds the units
    already passed in reverse. -/
def mendPairs (acc : List UInt16) : List UInt16 → List UInt16
  | [] => acc.reverse
  | [u] => (u :: acc).reverse
  | u :: v :: rest =>
    if Utf16.isLow u && Utf16.isHigh v then mendPairs (u :: v :: acc) rest
    else mendPairs (u :: acc) (v :: rest)

/-- The text in reverse, surrogate pairs kept. -/
def reversePairs (units : List UInt16) : List UInt16 :=
  mendPairs [] units.reverse

/-- The difference at the first unit where two texts differ, else that of the lengths. -/
def compareUnits : List UInt16 → List UInt16 → Int
  | a :: as, b :: bs =>
    if a = b then compareUnits as bs else (a.toNat : Int) - b.toNat
  | as, bs => (as.length : Int) - bs.length

/-- The hash code of a text. -/
def hashUnits (units : List UInt16) : Int32 :=
  units.foldl (fun h u => h * 31 + u.toUInt32.toInt32) 0

/-- The text without the units at both ends that pass the test. -/
def trimUnits (test : UInt16 → Bool) (units : List UInt16) : List UInt16 :=
  ((units.dropWhile test).reverse.dropWhile test).reverse

end Text

end JvmFold
