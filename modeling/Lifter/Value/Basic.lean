import Lifter.Text.Literal

/-!
# Values

A register holds a text that is known, or an expression over the unknown input of the program.

* `Value`, `Expression`: the two kinds, mutually recursive.
* `Value.text`, `Expression.text`: their written form.
* `Value.operand`: the written form on one side of a comparison, where a known text is a literal.
-/

namespace Lifter

mutual

/-- An expression over the input. -/
inductive Expression where
  /-- A bare name. -/
  | identifier (name : String)
  /-- A named buffer of characters, of known or unknown length. -/
  | buffer (name : String) (length : Option Nat)
  | unary (operator : String) (argument : Value)
  | binary (operator : String) (left right : Value)
  /-- A part of an object, such as one character of a buffer. -/
  | member (object : Expression) (property : Value)

/-- What a register holds. -/
inductive Value where
  /-- A known text. -/
  | concrete (text : String)
  /-- A text that depends on the input. -/
  | symbolic (expression : Expression)

end

deriving instance DecidableEq for Expression, Value

mutual

/-- The written form of an expression. Operations stand in parentheses. -/
def Expression.text : Expression → String
  | .identifier name => name
  | .buffer name _ => name
  | .unary operator argument => "(" ++ operator ++ argument.text ++ ")"
  | .binary operator left right => "(" ++ left.text ++ " " ++ operator ++ " " ++ right.text ++ ")"
  | .member object property => object.text ++ "[" ++ property.text ++ "]"

/-- The written form of a value; a known text stands as it is. -/
def Value.text : Value → String
  | .concrete text => text
  | .symbolic expression => expression.text

end

namespace Value

/-- The empty text, which registers hold at the start. -/
def empty : Value := concrete ""

/-- Whether the value is the empty text. -/
def isEmpty : Value → Bool
  | concrete text => text.isEmpty
  | symbolic _ => false

/-- The written form as an operand: a known text becomes a literal. -/
def operand : Value → String
  | concrete text => Text.literal text
  | symbolic expression => expression.text

/-- The numeral of a natural number. -/
def ofNat (n : Nat) : Value := concrete (Text.decimal n)

/-- The numeral of an integer. -/
def ofInt (n : Int) : Value := concrete (Text.signedDecimal n)

end Value

end Lifter
