import Lifter.Bounds

/-!
# JSON values

Fields of an object keep their order. Integers, written without fraction and exponent, are kept
apart from other numbers, which are known by their spelling only: no rule of this library computes
with them.

* `Json`: the values.
* `Json.field?`: a field of an object; where a name is repeated, the last one counts.
-/

namespace Lifter

/-- A JSON value. -/
inductive Json where
  | null
  | bool (b : Bool)
  /-- A number written without fraction and exponent. -/
  | integer (n : Int)
  /-- Any other number, as it is spelled. -/
  | real (spelling : String)
  | string (s : String)
  | array (items : List Json)
  | object (fields : List (String × Json))

namespace Json

/-- The value of a field of an object. -/
def field? (name : String) : Json → Option Json
  | object fields => (fields.reverse.find? (·.1 == name)).map (·.2)
  | _ => none

/-- The text of a string value. -/
def string? : Json → Option String
  | string s => some s
  | _ => none

/-- The value of a whole number in the unsigned 64-bit range. -/
def natural? : Json → Option Nat
  | integer (.ofNat n) => if n < bound64 then some n else none
  | _ => none

/-- A natural number as a JSON value. -/
def natural (n : Nat) : Json := integer n

end Json

end Lifter
