import Lifter.Text.Character
import Lifter.Toml.Basic
import Lifter.Toml.Number

/-!
# Strings, dates and other scalars of TOML

Readers take the text at hand and give what they read together with the text after it. Numbers and
dates are recognised on a whole token, the longest run of characters that can stand in one.

* `readString?`: the four kinds of strings.
* `isDate`: whether a token is a date.
* `readScalar?`: a number, date or truth value.
-/

namespace Lifter.Toml

/-! ## Characters -/

/-- White space inside a line. -/
def isSpace (c : Char) : Bool := c == ' ' || c == '\t'

/-- Characters that may stand unescaped in a comment and, delimiters apart, in a string. -/
def isPlain (c : Char) : Bool := c == '\t' || (0x20 ≤ c.toNat && c.toNat != 0x7F)

/-- The text after a line end, if the text starts with one. -/
def newLine? : List Char → Option (List Char)
  | '\n' :: rest => some rest
  | '\r' :: '\n' :: rest => some rest
  | _ => none

/-! ## Strings -/

/-- The character that a one-letter escape stands for. -/
def shortEscape? : Char → Option Char
  | 'b' => some '\x08'
  | 't' => some '\t'
  | 'n' => some '\n'
  | 'f' => some '\x0c'
  | 'r' => some '\r'
  | '"' => some '"'
  | '\\' => some '\\'
  | _ => none

/-- The character given by its code in hexadecimal digits. -/
def codeEscape? (digits : List Char) : Option Char :=
  (Text.readHexadecimal? digits).bind Text.charOfCode?

/-- An escape after its backslash. -/
def readEscape? : List Char → Option (Char × List Char)
  | 'u' :: a :: b :: c :: d :: rest => (codeEscape? [a, b, c, d]).map (·, rest)
  | 'U' :: a :: b :: c :: d :: e :: f :: g :: h :: rest =>
    (codeEscape? [a, b, c, d, e, f, g, h]).map (·, rest)
  | c :: rest => (shortEscape? c).map (·, rest)
  | [] => none

/-- The rest of a basic string on one line; `read` holds the characters so far, last first. -/
def readBasic? : (fuel : Nat) → (read : List Char) → List Char → Option (String × List Char)
  | 0, _, _ => none
  | fuel + 1, read, cs =>
    match cs with
    | [] => none
    | '"' :: rest => some (String.ofList read.reverse, rest)
    | '\\' :: rest =>
      match readEscape? rest with
      | some (c, rest) => readBasic? fuel (c :: read) rest
      | none => none
    | c :: rest => if isPlain c then readBasic? fuel (c :: read) rest else none

/-- The rest of a literal string on one line. -/
def readLiteral? (read : List Char) : List Char → Option (String × List Char)
  | [] => none
  | c :: rest =>
    if c == '\x27' then some (String.ofList read.reverse, rest)
    else if isPlain c then readLiteral? (c :: read) rest
    else none

/-- The end of a string on several lines, after its three closing quotes: up to two more quotes
belong to its text. -/
def closeLong (quote : Char) (read rest : List Char) : String × List Char :=
  let extra := (rest.take 2).takeWhile (· == quote)
  (String.ofList (read.reverse ++ extra), rest.drop extra.length)

/-- The text after white space and line ends. -/
def skipLines : List Char → List Char
  | '\r' :: '\n' :: rest => skipLines rest
  | c :: rest => if isSpace c || c == '\n' then skipLines rest else c :: rest
  | [] => []

/-- The text after a line end and all white space and line ends that follow it, if nothing but
white space comes before that line end. -/
def skipLineEnds? (cs : List Char) : Option (List Char) :=
  (newLine? (cs.dropWhile isSpace)).map skipLines

/-- The rest of a basic string on several lines. A backslash at the end of a line joins it to the
next text. Line ends are single line feeds in the result. -/
def readLongBasic? : (fuel : Nat) → (read : List Char) → List Char → Option (String × List Char)
  | 0, _, _ => none
  | fuel + 1, read, cs =>
    match cs with
    | [] => none
    | '"' :: '"' :: '"' :: rest => some (closeLong '"' read rest)
    | '\\' :: rest =>
      match skipLineEnds? rest with
      | some rest => readLongBasic? fuel read rest
      | none =>
        match readEscape? rest with
        | some (c, rest) => readLongBasic? fuel (c :: read) rest
        | none => none
    | c :: rest =>
      match newLine? (c :: rest) with
      | some rest => readLongBasic? fuel ('\n' :: read) rest
      | none => if isPlain c then readLongBasic? fuel (c :: read) rest else none

/-- The rest of a literal string on several lines. -/
def readLongLiteral? : (fuel : Nat) → (read : List Char) → List Char → Option (String × List Char)
  | 0, _, _ => none
  | fuel + 1, read, cs =>
    match cs with
    | [] => none
    | '\x27' :: '\x27' :: '\x27' :: rest => some (closeLong '\x27' read rest)
    | c :: rest =>
      match newLine? (c :: rest) with
      | some rest => readLongLiteral? fuel ('\n' :: read) rest
      | none => if isPlain c then readLongLiteral? fuel (c :: read) rest else none

/-- A string of any kind. A line end right after three opening quotes is not part of it. -/
def readString? (cs : List Char) : Option (String × List Char) :=
  match cs with
  | '"' :: '"' :: '"' :: rest => readLongBasic? cs.length [] ((newLine? rest).getD rest)
  | '\x27' :: '\x27' :: '\x27' :: rest => readLongLiteral? cs.length [] ((newLine? rest).getD rest)
  | '"' :: rest => readBasic? cs.length [] rest
  | '\x27' :: rest => readLiteral? [] rest
  | _ => none

/-! ## Dates -/

/-- The number written with exactly `width` digits, if it is between two bounds. -/
def fixed? (width low high : Nat) (cs : List Char) : Option Nat :=
  if cs.length == width then (Text.readNatural? cs).filter fun n => low ≤ n && n ≤ high else none

/-- The number of days in a month. -/
def daysIn (year month : Nat) : Nat :=
  if month == 2 then
    if year % 4 == 0 && (year % 100 != 0 || year % 400 == 0) then 29 else 28
  else if month == 4 || month == 6 || month == 9 || month == 11 then 30
  else 31

/-- Whether a text is a day of the calendar. -/
def isDay (cs : List Char) : Bool :=
  match cs.splitOn '-' with
  | [year, month, day] =>
    match fixed? 4 0 9999 year, fixed? 2 1 12 month with
    | some year, some month => (fixed? 2 1 (daysIn year month) day).isSome
    | _, _ => false
  | _ => false

/-- Whether a text is a time of day; seconds may have a fraction. -/
def isTime (cs : List Char) : Bool :=
  match cs.splitOn ':' with
  | [hour, minute, second] =>
    (fixed? 2 0 23 hour).isSome && (fixed? 2 0 59 minute).isSome &&
      match second.splitOn '.' with
      | [second] => (fixed? 2 0 60 second).isSome
      | [second, fraction] => (fixed? 2 0 60 second).isSome && (Text.readNatural? fraction).isSome
      | _ => false
  | _ => false

/-- Whether a text is a time of day, possibly with an offset from universal time. -/
def isOffsetTime (cs : List Char) : Bool :=
  let time := cs.takeWhile fun c => c.isDigit || c == ':' || c == '.'
  isTime time &&
    match cs.drop time.length with
    | [] => true
    | ['Z'] => true
    | ['z'] => true
    | sign :: offset =>
      (sign == '+' || sign == '-') &&
        match offset.splitOn ':' with
        | [hour, minute] => (fixed? 2 0 23 hour).isSome && (fixed? 2 0 59 minute).isSome
        | _ => false

/-- Whether a token is a day, a time, or both with a mark between them. -/
def isDate (token : List Char) : Bool :=
  isDay token || isTime token ||
    isDay (token.take 10) &&
      match token.drop 10 with
      | mark :: time => (mark == 'T' || mark == 't' || mark == ' ') && isOffsetTime time
      | [] => false

/-! ## Tokens -/

/-- Characters that can stand in a number, a date or a word. -/
def isTokenChar (c : Char) : Bool :=
  c.isAlphanum || c == '_' || c == '+' || c == '-' || c == '.' || c == ':'

/-- The longest token at the front. A day and a time with a space between them are one token. -/
def spanToken (cs : List Char) : List Char × List Char :=
  let token := cs.takeWhile isTokenChar
  match cs.drop token.length with
  | ' ' :: c :: rest =>
    if isDay token && c.isDigit then
      let time := (c :: rest).takeWhile isTokenChar
      (token ++ ' ' :: time, (c :: rest).drop time.length)
    else (token, ' ' :: c :: rest)
  | rest => (token, rest)

/-- A number, a date or a truth value. -/
def readScalar? (cs : List Char) : Option (Item × List Char) :=
  let (token, rest) := spanToken cs
  if token == "true".toList then some (.boolean true, rest)
  else if token == "false".toList then some (.boolean false, rest)
  else
    match integer? token with
    | some n => some (.integer n, rest)
    | none =>
      if isFloat token then some (.float (String.ofList token), rest)
      else if isDate token then some (.date (String.ofList token), rest)
      else none

end Lifter.Toml
