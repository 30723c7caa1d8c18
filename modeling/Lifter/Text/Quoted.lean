import Lifter.Text.Invisible
import Lifter.Text.Numeral

/-!
# Quoted texts in messages

A text quoted in a message stands between double quotes, with everything that would not be seen
written as an escape, so that a message is one line whatever it quotes.

* `quote`: the quoted form.
-/

namespace Lifter.Text

/-- One character inside quotes. Quotes, backslashes and the common controls have short escapes;
other invisible characters are given by code point. -/
def quoteChar (c : Char) : List Char :=
  if c == '\x00' then ['\\', '0']
  else if c == '\t' then ['\\', 't']
  else if c == '\r' then ['\\', 'r']
  else if c == '\n' then ['\\', 'n']
  else if c == '"' then ['\\', '"']
  else if c == '\\' then ['\\', '\\']
  else if isInvisible c then ['\\', 'u', '\x7b'] ++ hexDigits c.toNat ++ ['\x7d']
  else [c]

/-- A text between double quotes. -/
def quote (s : String) : String :=
  "\"" ++ String.ofList (s.toList.flatMap quoteChar) ++ "\""

end Lifter.Text
