import Lifter.Json.Basic
import Lifter.Text.Numeral

/-!
# Reading JSON texts

The grammar of JSON over lists of characters. A reader takes the text at hand and gives what it
read together with the text after it.

* `Json.parse?`: the value that a whole text denotes.
-/

namespace Lifter.Json

/-- The text after white space. -/
def skipBlanks (cs : List Char) : List Char :=
  cs.dropWhile fun c => c == ' ' || c == '\t' || c == '\n' || c == '\r'

/-- The character that a one-letter escape stands for. -/
def shortEscape? : Char → Option Char
  | '"' => some '"'
  | '\\' => some '\\'
  | '/' => some '/'
  | 'b' => some '\x08'
  | 'f' => some '\x0c'
  | 'n' => some '\n'
  | 'r' => some '\r'
  | 't' => some '\t'
  | _ => none

/-- The character that a pair of surrogate code units stands for. -/
def ofSurrogates (high low : Nat) : Char :=
  Char.ofNat (0x10000 + (high - 0xD800) * 0x400 + (low - 0xDC00))

/-- Read the rest of a string up to its closing quote. `read` holds the characters so far, last
first, and `high` a high surrogate that waits for its partner. -/
def readString (read : List Char) (high : Option Nat) : List Char → Option (String × List Char)
  | '"' :: rest => if high.isSome then none else some (String.ofList read.reverse, rest)
  | '\\' :: 'u' :: a :: b :: c :: d :: rest =>
    match Text.readHexadecimal? [a, b, c, d], high with
    | none, _ => none
    | some unit, some h =>
      if 0xDC00 ≤ unit ∧ unit ≤ 0xDFFF then readString (ofSurrogates h unit :: read) none rest
      else none
    | some unit, none =>
      if 0xD800 ≤ unit ∧ unit ≤ 0xDBFF then readString read (some unit) rest
      else if 0xDC00 ≤ unit ∧ unit ≤ 0xDFFF then none
      else readString (Char.ofNat unit :: read) none rest
  | '\\' :: c :: rest =>
    match shortEscape? c, high with
    | some c, none => readString (c :: read) none rest
    | _, _ => none
  | c :: rest =>
    if high.isSome || c == '\\' || c.toNat < 0x20 then none else readString (c :: read) none rest
  | [] => none

/-- A fraction at the front, if there is one: a point and at least one digit. -/
def readFraction? : List Char → Option (List Char × List Char)
  | '.' :: rest =>
    let (digits, after) := Text.spanDigits rest
    if digits.isEmpty then none else some ('.' :: digits, after)
  | cs => some ([], cs)

/-- An exponent at the front, if there is one. -/
def readExponent? : List Char → Option (List Char × List Char)
  | [] => some ([], [])
  | mark :: rest =>
    if mark == 'e' || mark == 'E' then
      let (sign, rest) := match rest with
        | '+' :: rest => (['+'], rest)
        | '-' :: rest => (['-'], rest)
        | rest => ([], rest)
      let (digits, after) := Text.spanDigits rest
      if digits.isEmpty then none else some (mark :: sign ++ digits, after)
    else some ([], mark :: rest)

/-- Read a number. The integer part has no leading zero. A negative zero is no integer. -/
def readNumber? (cs : List Char) : Option (Json × List Char) := do
  let (sign, rest) := match cs with
    | '-' :: rest => (['-'], rest)
    | rest => ([], rest)
  let (digits, rest) := Text.spanDigits rest
  guard (!digits.isEmpty && (digits.length == 1 || digits.head? != some '0'))
  let (fraction, rest) ← readFraction? rest
  let (exponent, rest) ← readExponent? rest
  let whole := Nat.ofDigitChars 10 digits 0
  let spelled := Json.real (String.ofList (sign ++ digits ++ fraction ++ exponent))
  let value :=
    if !fraction.isEmpty || !exponent.isEmpty then spelled
    else if sign.isEmpty then Json.integer whole
    else if whole == 0 then spelled
    else Json.integer (-(whole : Int))
  return (value, rest)

mutual

/-- Read a value; `fuel` bounds the depth and the number of items. -/
def readValue? : (fuel : Nat) → List Char → Option (Json × List Char)
  | 0, _ => none
  | fuel + 1, cs =>
    match skipBlanks cs with
    | 'n' :: 'u' :: 'l' :: 'l' :: rest => some (null, rest)
    | 't' :: 'r' :: 'u' :: 'e' :: rest => some (bool true, rest)
    | 'f' :: 'a' :: 'l' :: 's' :: 'e' :: rest => some (bool false, rest)
    | '"' :: rest => (readString [] none rest).map fun (s, rest) => (string s, rest)
    | '[' :: rest =>
      match skipBlanks rest with
      | ']' :: rest => some (array [], rest)
      | rest => (readItems? fuel [] rest).map fun (items, rest) => (array items, rest)
    | '\x7b' :: rest =>
      match skipBlanks rest with
      | '\x7d' :: rest => some (object [], rest)
      | rest => (readFields? fuel [] rest).map fun (fields, rest) => (object fields, rest)
    | rest => readNumber? rest

/-- Read the items of an array up to its closing bracket. -/
def readItems? : (fuel : Nat) → List Json → List Char → Option (List Json × List Char)
  | 0, _, _ => none
  | fuel + 1, read, cs =>
    match readValue? fuel cs with
    | none => none
    | some (item, rest) =>
      match skipBlanks rest with
      | ',' :: rest => readItems? fuel (item :: read) rest
      | ']' :: rest => some ((item :: read).reverse, rest)
      | _ => none

/-- Read the fields of an object up to its closing brace. -/
def readFields? : (fuel : Nat) → List (String × Json) → List Char →
    Option (List (String × Json) × List Char)
  | 0, _, _ => none
  | fuel + 1, read, cs =>
    match skipBlanks cs with
    | '"' :: rest =>
      match readString [] none rest with
      | none => none
      | some (name, rest) =>
        match skipBlanks rest with
        | ':' :: rest =>
          match readValue? fuel rest with
          | none => none
          | some (value, rest) =>
            match skipBlanks rest with
            | ',' :: rest => readFields? fuel ((name, value) :: read) rest
            | '\x7d' :: rest => some (((name, value) :: read).reverse, rest)
            | _ => none
        | _ => none
    | _ => none

end

/-- The value that a text denotes, if it is one JSON value with nothing but white space around. -/
def parse? (text : String) : Option Json :=
  let cs := text.toList
  match readValue? (cs.length + 1) cs with
  | some (value, rest) => if (skipBlanks rest).isEmpty then some value else none
  | none => none

end Lifter.Json
