import Lifter.Integer
import Lifter.Text.Character
import Lifter.Text.Quoted
import Lifter.Value.Basic

/-!
# Operations on values

Each operation computes when its operands are known, and builds an expression as soon as one of
them is not. The empty text is neutral for addition and for concatenation.

* `Value.add`, `Value.negate`: arithmetic on numerals.
* `Value.concat`, `Value.append`: joining texts.
* `Value.character`, `Value.lastCode`, `Value.dropLast`: characters and their codes.
* `EvalError`: why an operation has no result, with `EvalError.message`.
-/

namespace Lifter

/-- Why an operation has no result. -/
inductive EvalError where
  | notAnInteger (text : String)
  | overflow
  /-- The code of a character to be written depends on the input. -/
  | symbolicCode (code : Expression)
  | invalidCode (code : Int)
  /-- The empty text has no last character. -/
  | emptyText

/-- The wording of a failed operation. -/
def EvalError.message : EvalError → String
  | .notAnInteger text => "expected an integer, found " ++ Text.quote text
  | .overflow => "integer overflow"
  | .symbolicCode code => "character code must be concrete, found `" ++ code.text ++ "`"
  | .invalidCode code => Text.signedDecimal code ++ " is not a valid character code"
  | .emptyText => "cannot take the last character of an empty string"

namespace Value

/-- The integer that a known text denotes. -/
def integer (text : String) : Except EvalError Int :=
  match Integer.read? text with
  | some n => .ok n
  | none => .error (.notAnInteger text)

/-- The numeral of a result that has to be in range. -/
def checked (n : Int) : Except EvalError Value :=
  match Integer.checked? n with
  | some n => .ok (ofInt n)
  | none => .error .overflow

/-- An operand of an expression: a known text becomes the canonical numeral of its integer. -/
def numeric : Value → Except EvalError Value
  | symbolic expression => .ok (symbolic expression)
  | concrete text => (integer text).map ofInt

/-- If one of two values is empty, the other one. -/
def absorbEmpty? (left right : Value) : Option Value :=
  if right.isEmpty then some left else if left.isEmpty then some right else none

/-! ## Arithmetic -/

/-- The sum of two values. -/
def add (left right : Value) : Except EvalError Value :=
  match absorbEmpty? left right with
  | some value => .ok value
  | none =>
    match left, right with
    | concrete l, concrete r => do
      let m ← integer l
      let n ← integer r
      checked (m + n)
    | left, right => do
      let l ← left.numeric
      let r ← right.numeric
      return symbolic (.binary "+" l r)

/-- A value with the opposite sign. -/
def negate : Value → Except EvalError Value
  | symbolic expression => .ok (symbolic (.unary "-" (symbolic expression)))
  | concrete text => do
    let n ← integer text
    checked (-n)

/-! ## Joining -/

/-- A value followed by another. -/
def concat (left right : Value) : Value :=
  match absorbEmpty? left right with
  | some value => value
  | none =>
    match left, right with
    | concrete l, concrete r => concrete (l ++ r)
    | left, right => symbolic (.binary "+" left right)

/-- A value followed by a literal. -/
def append (value : Value) (literal : String) : Value := value.concat (concrete literal)

/-! ## Characters -/

/-- The character with a given code, if the code is a Unicode scalar value. -/
def scalar? (code : Int) : Option Char :=
  match code with
  | .ofNat code => Text.charOfCode? code
  | .negSucc _ => none

/-- The text of the one character whose code the value gives. -/
def character : Value → Except EvalError Value
  | symbolic expression => .error (.symbolicCode expression)
  | concrete text => do
    let code ← integer text
    match scalar? code with
    | some c => return concrete (String.singleton c)
    | none => throw (.invalidCode code)

/-- The code of the last character. A buffer of known length is indexed by a number; the last
character of any other expression is found through its length. -/
def lastCode : Value → Except EvalError Value
  | symbolic (.buffer name (some (n + 1))) =>
    .ok (symbolic (.member (.buffer name (some (n + 1))) (ofNat n)))
  | symbolic expression =>
    let length := Expression.member expression (concrete "\"length\"")
    .ok (symbolic (.member expression (symbolic (.binary "-" (symbolic length) (concrete "1")))))
  | concrete text =>
    match text.toList.getLast? with
    | some c => .ok (ofNat c.toNat)
    | none => .error .emptyText

/-- The value without its last character. A buffer of known length becomes one shorter. -/
def dropLast : Value → Value
  | symbolic (.buffer name (some (n + 1))) => symbolic (.buffer name (some n))
  | symbolic expression => symbolic (.member expression (concrete ":-1"))
  | concrete text => concrete (String.ofList text.toList.dropLast)

end Value

end Lifter
