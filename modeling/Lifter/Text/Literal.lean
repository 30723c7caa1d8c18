import Lifter.Text.Numeral

/-!
# String literals of C

* `escape`: the body of the literal for a text.
* `literal`: the literal itself, between double quotes.
-/

namespace Lifter.Text

/-- One character in the body of a literal. Quotes, backslashes and the three common controls have
their own escapes, other ASCII controls are written by code, and everything else stands as it is. -/
def escapeChar (c : Char) : List Char :=
  if c == '\\' then ['\\', '\\']
  else if c == '"' then ['\\', '"']
  else if c == '\n' then ['\\', 'n']
  else if c == '\t' then ['\\', 't']
  else if c == '\r' then ['\\', 'r']
  else if c.toNat < 0x20 || c.toNat == 0x7F then '\\' :: 'x' :: twoHexDigits c.toNat
  else [c]

/-- The body of the literal for a text. -/
def escape (s : String) : String := String.ofList (s.toList.flatMap escapeChar)

/-- The literal for a text. -/
def literal (s : String) : String := "\"" ++ escape s ++ "\""

end Lifter.Text
