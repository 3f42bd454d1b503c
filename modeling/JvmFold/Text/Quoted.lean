import JvmFold.Text.Invisible

/-!
# Quoted Text

Diagnostics show a text between double quotes so that blanks, controls and
combining marks in it can be told apart. The quote and the backslash are
escaped with a backslash, the five controls that have a letter are written
with it, and every other character without a visible form is written by its
code point in lower-case hexadecimal.

## Main definitions

* `Text.escapeChar`: The written form of one character inside quotes.
* `Text.quoted`: A text between quotes.
* `Text.quotedList`: A bracketed list of quoted texts.
-/

namespace JvmFold

namespace Text

/-- The lower-case hexadecimal digits of `n`, without leading zeros. -/
def hexDigits (n : Nat) : String :=
  String.ofList (Nat.toDigits 16 n)

/-- The written form of one character between double quotes. -/
def escapeChar (c : Char) : String :=
  if c = '"' then "\\\""
  else if c = '\\' then "\\\\"
  else if c = '\n' then "\\n"
  else if c = '\r' then "\\r"
  else if c = '\t' then "\\t"
  else if c = Char.ofNat 0 then "\\0"
  else if isInvisible c then "\\u\x7b" ++ hexDigits c.toNat ++ "\x7d"
  else String.singleton c

/-- The text between double quotes, with every character in its written form. -/
def quoted (s : String) : String :=
  "\"" ++ String.join (s.toList.map escapeChar) ++ "\""

/-- Quoted texts between brackets, separated by a comma and a blank. -/
def quotedList (l : List String) : String :=
  "[" ++ ", ".intercalate (l.map quoted) ++ "]"

end Text

end JvmFold
