import Lifter.Json.Basic
import Lifter.Text.Numeral

/-!
# JSON texts

Two layouts of one grammar: all on one line, or one item a line with two spaces of indentation for
each level.

* `Json.quoted`: a string between quotes.
* `Json.compress`: the one-line layout.
* `Json.pretty`: the indented layout.
-/

namespace Lifter.Json

/-- One character of a string. Only quotes, backslashes and controls below the space are escaped. -/
def quotedChar (c : Char) : List Char :=
  if c == '"' then ['\\', '"']
  else if c == '\\' then ['\\', '\\']
  else if c == '\x08' then ['\\', 'b']
  else if c == '\x0c' then ['\\', 'f']
  else if c == '\n' then ['\\', 'n']
  else if c == '\r' then ['\\', 'r']
  else if c == '\t' then ['\\', 't']
  else if c.toNat < 0x20 then
    ['\\', 'u', '0', '0', Nat.digitChar (c.toNat / 16), Nat.digitChar (c.toNat % 16)]
  else [c]

/-- A string between quotes. -/
def quoted (s : String) : String :=
  "\"" ++ String.ofList (s.toList.flatMap quotedChar) ++ "\""

/-- Items between brackets, with `gap` before each item and `close` before the last bracket.
Without items, the brackets touch. -/
def bracketed (left right gap close : String) (items : List String) : String :=
  if items.isEmpty then left ++ right
  else left ++ gap ++ String.intercalate ("," ++ gap) items ++ close ++ right

/-- A line end and the indentation of a level. -/
def newLine (depth : Nat) : String := String.ofList ('\n' :: List.replicate (2 * depth) ' ')

mutual

/-- The one-line layout. -/
def compress : Json → String
  | null => "null"
  | bool b => if b then "true" else "false"
  | integer n => Text.signedDecimal n
  | real spelling => spelling
  | string s => quoted s
  | array items => bracketed "[" "]" "" "" (compressItems items)
  | object fields => bracketed "\x7b" "\x7d" "" "" (compressFields fields)

/-- The items of an array in the one-line layout. -/
def compressItems : List Json → List String
  | [] => []
  | item :: rest => compress item :: compressItems rest

/-- The fields of an object in the one-line layout. -/
def compressFields : List (String × Json) → List String
  | [] => []
  | (name, value) :: rest => (quoted name ++ ":" ++ compress value) :: compressFields rest

end

mutual

/-- The indented layout of a value that stands at the given level. -/
def prettyAt (depth : Nat) : Json → String
  | null => "null"
  | bool b => if b then "true" else "false"
  | integer n => Text.signedDecimal n
  | real spelling => spelling
  | string s => quoted s
  | array items =>
    bracketed "[" "]" (newLine (depth + 1)) (newLine depth) (prettyItems (depth + 1) items)
  | object fields =>
    bracketed "\x7b" "\x7d" (newLine (depth + 1)) (newLine depth) (prettyFields (depth + 1) fields)

/-- The items of an array in the indented layout. -/
def prettyItems (depth : Nat) : List Json → List String
  | [] => []
  | item :: rest => prettyAt depth item :: prettyItems depth rest

/-- The fields of an object in the indented layout. -/
def prettyFields (depth : Nat) : List (String × Json) → List String
  | [] => []
  | (name, value) :: rest =>
    (quoted name ++ ": " ++ prettyAt depth value) :: prettyFields depth rest

end

/-- The indented layout. -/
def pretty (value : Json) : String := prettyAt 0 value

end Lifter.Json
