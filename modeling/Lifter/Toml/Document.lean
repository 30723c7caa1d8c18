import Lifter.Toml.Scalar

/-!
# TOML documents

A document is a sequence of lines: assignments and table headers. Reading finds the lines; building
carries them out one after the other on the root table.

* `nestingLimit`: how deep values and keys may go.
* `Line`, `readLines?`: the lines of a text.
* `build?`: the root table that lines describe.
* `parse?`: both in one.
-/

namespace Lifter.Toml

/-! ## Blank space and keys -/

/-- The text after white space, line ends and comments; `comment` says that a comment is open. -/
def skipFiller? (comment : Bool) : List Char → Option (List Char)
  | [] => some []
  | '\n' :: rest => skipFiller? false rest
  | '\r' :: '\n' :: rest => skipFiller? false rest
  | c :: rest =>
    if comment then (if isPlain c then skipFiller? true rest else none)
    else if isSpace c then skipFiller? false rest
    else if c == '#' then skipFiller? true rest
    else some (c :: rest)

/-- The text after the end of a line, before which only white space and a comment may stand. -/
def endLine? (cs : List Char) : Option (List Char) :=
  let atEnd (cs : List Char) := if cs.isEmpty then some [] else newLine? cs
  match cs.dropWhile isSpace with
  | '#' :: comment => atEnd (comment.dropWhile isPlain)
  | rest => atEnd rest

/-- Characters of a key without quotes. -/
def isBareChar (c : Char) : Bool := c.isAlphanum || c == '_' || c == '-'

/-- One part of a key: a bare word, or a string on one line. -/
def readKeyPart? (cs : List Char) : Option (String × List Char) :=
  match cs with
  | '"' :: rest => readBasic? cs.length [] rest
  | '\x27' :: rest => readLiteral? [] rest
  | cs =>
    let word := cs.takeWhile isBareChar
    if word.isEmpty then none else some (String.ofList word, cs.drop word.length)

/-- The greatest number of parts of a key, and of arrays and inline tables inside each other. -/
def nestingLimit : Nat := 79

/-- A key of at most `room` parts with dots between them. White space around a dot does not
count. -/
def readKey? : (room : Nat) → List Char → Option (List String × List Char)
  | 0, _ => none
  | room + 1, cs =>
    match readKeyPart? (cs.dropWhile isSpace) with
    | none => none
    | some (part, rest) =>
      match rest.dropWhile isSpace with
      | '.' :: rest => (readKey? room rest).map fun (parts, rest) => (part :: parts, rest)
      | rest => some ([part], rest)

/-! ## Values -/

mutual

/-- A value in which at most `room` arrays and inline tables stand inside each other; `fuel` bounds
the number of items. -/
def readValue? : (fuel room : Nat) → List Char → Option (Item × List Char)
  | 0, _, _ => none
  | fuel + 1, room, cs =>
    match cs with
    | '"' :: _ => (readString? cs).map fun (s, rest) => (.string s, rest)
    | '\x27' :: _ => (readString? cs).map fun (s, rest) => (.string s, rest)
    | '[' :: rest =>
      match room with
      | 0 => none
      | room + 1 => (readItems? fuel room [] rest).map fun (items, rest) => (.array items, rest)
    | '\x7b' :: rest =>
      match room with
      | 0 => none
      | room + 1 =>
        match rest.dropWhile isSpace with
        | '\x7d' :: rest => some (.inline [], rest)
        | rest => (readFields? fuel room [] rest).map fun (fields, rest) => (.inline fields, rest)
    | cs => readScalar? cs

/-- The items of an array up to its closing bracket; the last one may have a comma after it. -/
def readItems? : (fuel room : Nat) → List Item → List Char → Option (List Item × List Char)
  | 0, _, _, _ => none
  | fuel + 1, room, read, cs =>
    match skipFiller? false cs with
    | none => none
    | some (']' :: rest) => some (read.reverse, rest)
    | some rest =>
      match readValue? fuel room rest with
      | none => none
      | some (item, rest) =>
        match skipFiller? false rest with
        | some (',' :: rest) => readItems? fuel room (item :: read) rest
        | some (']' :: rest) => some ((item :: read).reverse, rest)
        | _ => none

/-- The fields of an inline table up to its closing brace, all on one line. -/
def readFields? : (fuel room : Nat) → Fields → List Char → Option (Fields × List Char)
  | 0, _, _, _ => none
  | fuel + 1, room, fields, cs =>
    match readKey? nestingLimit cs with
    | some (path, '=' :: rest) =>
      match readValue? fuel room (rest.dropWhile isSpace) with
      | none => none
      | some (value, rest) =>
        match fields.assign? value path with
        | none => none
        | some fields =>
          match rest.dropWhile isSpace with
          | ',' :: rest => readFields? fuel room fields rest
          | '\x7d' :: rest => some (fields, rest)
          | _ => none
    | _ => none

end

/-! ## Lines -/

/-- A line of a document. -/
inductive Line where
  | assign (path : List String) (value : Item)
  | header (path : List String)
  /-- A header in double brackets. -/
  | nextHeader (path : List String)

/-- The line at the front of a text, and the text after it. -/
def readLine? (cs : List Char) : Option (Line × List Char) :=
  match cs with
  | '[' :: '[' :: rest =>
    match readKey? nestingLimit rest with
    | some (path, ']' :: ']' :: rest) => (endLine? rest).map (Line.nextHeader path, ·)
    | _ => none
  | '[' :: rest =>
    match readKey? nestingLimit rest with
    | some (path, ']' :: rest) => (endLine? rest).map (Line.header path, ·)
    | _ => none
  | cs =>
    match readKey? nestingLimit cs with
    | some (path, '=' :: rest) =>
      match readValue? rest.length nestingLimit (rest.dropWhile isSpace) with
      | some (value, rest) => (endLine? rest).map (Line.assign path value, ·)
      | none => none
    | _ => none

/-- The lines of a text. -/
def readLines? : (fuel : Nat) → List Char → Option (List Line)
  | 0, _ => none
  | fuel + 1, cs =>
    match skipFiller? false cs with
    | none => none
    | some [] => some []
    | some cs =>
      match readLine? cs with
      | none => none
      | some (line, rest) => (readLines? fuel rest).map (line :: ·)

/-- Carry out a line: assignments go to the table of the last header. Gives the root table and the
path of the table now current. -/
def Line.carryOut? (root : Fields) (current : List String) : Line → Option (Fields × List String)
  | assign path value => (root.modify? (·.assign? value path) current).map (·, current)
  | header path => do
    let key ← path.getLast?
    let root ← root.modify? (·.define? key) path.dropLast
    return (root, path)
  | nextHeader path => do
    let key ← path.getLast?
    let root ← root.modify? (·.defineNext? key) path.dropLast
    return (root, path)

/-- Carry out lines one after the other. -/
def carryOutAll? (root : Fields) (current : List String) : List Line → Option Fields
  | [] => some root
  | line :: rest => do
    let (root, current) ← line.carryOut? root current
    carryOutAll? root current rest

/-- The root table that lines describe. -/
def build? (lines : List Line) : Option Fields := carryOutAll? [] [] lines

/-- The root table of a document. A byte order mark at its start does not count. -/
def parse? (text : String) : Option Fields := do
  let cs := text.toList
  let cs := if cs.head? == some '\ufeff' then cs.tail else cs
  let lines ← readLines? (cs.length + 1) cs
  build? lines

end Lifter.Toml
