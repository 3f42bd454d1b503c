import JvmFold.Number.Text

/-!
# Floating-Point Numbers as Text

How the machine reads a floating-point number: blanks and control characters
around it do not count, a sign may stand in front and a letter for the type
behind, and there are words for the values that have no digits. Numbers in
hexadecimal are recognized and refused.

## Main definitions

* `FloatText`: What a text stands for.
* `FloatText.read`: Reads a text.
* `FloatText.round?`: The bits of the nearest number.
-/

namespace JvmFold

/-- What a text stands for. -/
inductive FloatText where
  | nan (negative : Bool)
  | infinite (negative : Bool)
  | decimal (negative : Bool) (value : DecimalText)
  /-- A number in hexadecimal, by its text. -/
  | hexadecimal (text : String)
  | blank
  | malformed
deriving DecidableEq, Repr

namespace FloatText

/-- The text without blanks and control characters at both ends. -/
def trim (cs : List Char) : List Char :=
  let test (c : Char) : Bool := c.toNat ≤ 0x20
  ((cs.dropWhile test).reverse.dropWhile test).reverse

/-- The text without a letter for the type at its end. -/
def dropTypeLetter (cs : List Char) : List Char :=
  match cs.reverse with
  | [] => []
  | c :: rest => if ['d', 'D', 'f', 'F'].contains c then rest.reverse else cs

/-- Reads a text. -/
def read (text : String) : FloatText :=
  let trimmed := trim text.toList
  if trimmed.isEmpty then .blank
  else
    let (negative, unsigned) := Radix.splitSign trimmed
    if unsigned = "NaN".toList then .nan negative
    else if unsigned = "Infinity".toList then .infinite negative
    else if unsigned.take 2 = ['0', 'x'] ∨ unsigned.take 2 = ['0', 'X'] then
      .hexadecimal (String.ofList trimmed)
    else
      match DecimalText.parse? (dropTypeLetter unsigned) with
      | some value => .decimal negative value
      | none => .malformed

/-- The bits of the nearest number of a format, if the text stands for one. -/
def round? (t : FloatText) (f : FloatFormat) : Option Nat :=
  match t with
  | .nan negative => some (f.withSign negative f.nan)
  | .infinite negative => some (f.infinity negative)
  | .decimal negative value => some (f.withSign negative (value.round f))
  | _ => none

end FloatText

end JvmFold
