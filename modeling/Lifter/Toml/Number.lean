import Lifter.Integer
import Lifter.Text.Numeral

/-!
# Numbers of TOML

A number is recognised on a whole token. Integers have their value; of a float it only matters
whether it is one, and for that its size is compared exactly, on digits.

* `integer?`: the integer that a token denotes.
* `Decimal`, `float?`: the number in a float.
* `Decimal.isHuge`: whether it is beyond all doubles.
* `isFloat`: whether a token is a float.
-/

namespace Lifter.Toml

/-! ## Digits and integers -/

/-- Digits without the underscores between them; an underscore stands between two digits. -/
def digitRun? (isDigit : Char → Bool) (cs : List Char) : Option (List Char) :=
  let groups := cs.splitOn '_'
  if groups.all fun group => !group.isEmpty && group.all isDigit then some groups.flatten else none

/-- A number in base 2, 8 or 16. -/
def radix? (base : Nat) (cs : List Char) : Option Nat := do
  let digits ← digitRun? (fun c => (Text.hexValue? c).any (· < base)) cs
  return digits.foldl (fun n c => base * n + (Text.hexValue? c).getD 0) 0

/-- A decimal number without leading zeros. -/
def decimal? (cs : List Char) : Option Nat := do
  let digits ← digitRun? Char.isDigit cs
  guard (digits.length == 1 || digits.head? != some '0')
  return Nat.ofDigitChars 10 digits 0

/-- A token without its sign, and whether that was a minus sign. -/
def splitSign : List Char → Bool × List Char
  | '-' :: rest => (true, rest)
  | '+' :: rest => (false, rest)
  | cs => (false, cs)

/-- The integer that a token denotes. -/
def integer? (token : List Char) : Option Int :=
  let magnitude : Option Int :=
    match token with
    | '0' :: 'x' :: digits => (radix? 16 digits).map Int.ofNat
    | '0' :: 'o' :: digits => (radix? 8 digits).map Int.ofNat
    | '0' :: 'b' :: digits => (radix? 2 digits).map Int.ofNat
    | token =>
      let (negative, digits) := splitSign token
      (decimal? digits).map fun n => if negative then -(n : Int) else n
  magnitude.bind Integer.checked?

/-! ## Floats -/

/-- A decimal fraction: its digits as one number, times a power of ten. -/
structure Decimal where
  negative : Bool
  digits : List Char
  exponent : Int

/-- The exponent of a float after its mark. -/
def exponent? (cs : List Char) : Option Int :=
  let (negative, cs) := splitSign cs
  (digitRun? Char.isDigit cs).map fun digits =>
    let n := Nat.ofDigitChars 10 digits 0
    if negative then -(n : Int) else n

/-- The number in a float without special name: a decimal number, then a fraction, an exponent or
both. -/
def float? (token : List Char) : Option Decimal := do
  let (negative, cs) := splitSign token
  let isMark (c : Char) : Bool := c == 'e' || c == 'E'
  let whole := cs.takeWhile fun c => c.isDigit || c == '_'
  guard (decimal? whole).isSome
  let digits ← digitRun? Char.isDigit whole
  match cs.drop whole.length with
  | '.' :: rest =>
    let fraction := rest.takeWhile (!isMark ·)
    let places ← digitRun? Char.isDigit fraction
    let exponent ←
      match rest.drop fraction.length with
      | [] => some 0
      | _ :: exponent => exponent? exponent
    return ⟨negative, digits ++ places, exponent - (places.length : Int)⟩
  | mark :: exponent =>
    guard (isMark mark)
    return ⟨negative, digits, ← exponent? exponent⟩
  | [] => none

/-- The least number that is too large for a double: halfway from the largest double to the power
of two above it. -/
def doubleBound : Nat := Nat.pow 2 1024 - Nat.pow 2 970

/-- Whether the digits, times the power of ten, reach `doubleBound`. It has 309 digits, so only
numbers with 309 digits before the point are compared with it. -/
def Decimal.isHuge (d : Decimal) : Bool :=
  let digits := d.digits.dropWhile (· == '0')
  let size : Int := digits.length + d.exponent
  let n := Nat.ofDigitChars 10 digits 0
  if digits.isEmpty || size < 309 then false
  else if 309 < size then true
  else if d.exponent < 0 then doubleBound * Nat.pow 10 d.exponent.natAbs ≤ n
  else doubleBound ≤ n * Nat.pow 10 d.exponent.natAbs

/-- Whether a token is a float. One that is too large is none, unless it is negative. -/
def isFloat (token : List Char) : Bool :=
  let name := (splitSign token).2
  name == "inf".toList || name == "nan".toList ||
    (float? token).any fun d => d.negative || !d.isHuge

end Lifter.Toml
