import Lifter.Bounds
import Lifter.Text.Character
import Lifter.Text.Numeral

/-!
# Recovering a secret

A program that checks a secret compares each character of its input with a constant that it has
built up by additions, so its pseudocode holds one addend `+ <code>` for each expected character.

* `outsideLiterals`: the parts of a text that are not inside string literals.
* `addends`: the numbers that follow a plus sign.
* `recoverSecret`: the characters whose codes are the addends, in order.
-/

namespace Lifter

/-- Where a scan stands: outside a string literal, inside one, or after a backslash inside one. -/
inductive LiteralState where
  | outside
  | inside
  | escaped
  deriving DecidableEq

/-- The parts of a text that stand outside string literals, from a given state on. `current` holds
the part being read, last character first; a literal that is never closed hides all the rest. -/
def outsideFrom (state : LiteralState) (current : List Char) : List Char → List (List Char)
  | [] => if state = .outside then [current.reverse] else []
  | c :: rest =>
    match state with
    | .outside =>
      if c = '"' then current.reverse :: outsideFrom .inside [] rest
      else outsideFrom .outside (c :: current) rest
    | .escaped => outsideFrom .inside [] rest
    | .inside =>
      if c = '\\' then outsideFrom .escaped [] rest
      else if c = '"' then outsideFrom .outside [] rest
      else outsideFrom .inside [] rest

/-- The parts of a text that stand outside string literals. -/
def outsideLiterals (text : List Char) : List (List Char) := outsideFrom .outside [] text

/-- The number at the front of a text, if it starts with a digit and the number has at most 32
bits. -/
def leadingNumber? (text : List Char) : Option Nat :=
  (Text.readNatural? (Text.spanDigits text).1).filter (· < bound32)

/-- The numbers that follow a plus sign and a space. -/
def addends : List Char → List Nat
  | [] => []
  | '+' :: ' ' :: rest =>
    match leadingNumber? rest with
    | some n => n :: addends rest
    | none => addends rest
  | _ :: rest => addends rest

/-- The secret that a checker's pseudocode gives away. -/
def recoverSecret (pseudocode : String) : String :=
  String.ofList (((outsideLiterals pseudocode.toList).flatMap addends).filterMap Text.charOfCode?)

end Lifter
