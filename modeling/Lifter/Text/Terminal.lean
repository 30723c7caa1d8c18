import Lifter.Text.Numeral

/-!
# Texts for a terminal

A text may hold controls that a terminal would obey instead of showing. They are written as escapes
before the text goes there. Tabs and line ends stay as they are, and so do the controls that
terminals ignore.

* `shortControls`: the commands of seven bits, escaped by two digits.
* `disarm`: a text with all commands escaped.
-/

namespace Lifter.Text

/-- The commands of seven bits that a terminal obeys: bell, backspace, form feed, escape and
delete. -/
def shortControls : List Char := ['\x07', '\x08', '\x0c', '\x1b', '\x7f']

/-- Whether a character is a command of eight bits. -/
def isLongControl (c : Char) : Bool := 0x80 ≤ c.toNat && c.toNat ≤ 0x9F

/-- One character of a text for a terminal. -/
def disarmChar (c : Char) : List Char :=
  if shortControls.contains c then '\\' :: 'x' :: twoHexDigits c.toNat
  else if isLongControl c then ['\\', 'u', '\x7b'] ++ hexDigits c.toNat ++ ['\x7d']
  else [c]

/-- A text that a terminal shows without obeying it. -/
def disarm (s : String) : String := String.ofList (s.toList.flatMap disarmChar)

end Lifter.Text
