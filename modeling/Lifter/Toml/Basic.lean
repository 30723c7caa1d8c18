/-!
# TOML items

The items of a TOML document, and how assignments and table headers build it up. A table remembers
how it came about, because that decides how it may be extended: a header defines a table once, and a
dotted key extends only tables that dotted keys have made.

* `Item`, `Fields`: items, and named items in order.
* `Fields.assign?`: the effect of an assignment to a possibly dotted key.
* `Fields.define?`, `Fields.defineNext?`: the effect of a header, and of one in double brackets.
* `Fields.modify?`: a change of the table at a path.
-/

namespace Lifter.Toml

/-- How a table came about. -/
inductive Origin where
  /-- As a parent in a header's path. -/
  | implied
  /-- As a parent in a dotted key. -/
  | dotted
  /-- By a header. -/
  | headed
  deriving DecidableEq

/-- An item of a document. Floats and dates are known by their spelling only. -/
inductive Item where
  | string (s : String)
  | integer (n : Int)
  | boolean (b : Bool)
  | float (spelling : String)
  | date (spelling : String)
  | array (items : List Item)
  /-- A table between braces, which nothing outside can extend. -/
  | inline (fields : List (String × Item))
  | table (origin : Origin) (fields : List (String × Item))
  /-- The tables of headers in double brackets. -/
  | tables (all : List (List (String × Item)))

/-- Named items in order. -/
abbrev Fields := List (String × Item)

namespace Fields

/-- The item of a given name. -/
def get? (fields : Fields) (key : String) : Option Item := List.lookup key fields

/-- Give a name another item, or add it at the end. -/
def put (fields : Fields) (key : String) (item : Item) : Fields :=
  match fields with
  | [] => [(key, item)]
  | (k, i) :: rest => if k = key then (key, item) :: rest else (k, i) :: put rest key item

/-- Assign a value to a key, given as its parts. No key is assigned twice. -/
def assign? (value : Item) : (path : List String) → Fields → Option Fields
  | [], _ => none
  | [key], fields => if (fields.get? key).isSome then none else some (fields.put key value)
  | key :: next :: rest, fields =>
    match fields.get? key with
    | none => (assign? value (next :: rest) []).map fun sub => fields.put key (.table .dotted sub)
    | some (.table origin sub) =>
      if origin = .headed ∨ (rest.isEmpty ∧ origin = .implied) then none
      else (assign? value (next :: rest) sub).map fun sub => fields.put key (.table origin sub)
    | some _ => none

/-- Change the table at the last of several tables. -/
def modifyLast? (change : Fields → Option Fields) : List Fields → Option (List Fields)
  | [] => none
  | [fields] => (change fields).map fun fields => [fields]
  | fields :: rest => (modifyLast? change rest).map fun rest => fields :: rest

/-- Change the table below a key; if there is none, an implied one is made. -/
def modifyAt? (change : Fields → Option Fields) (key : String) (fields : Fields) : Option Fields :=
  match fields.get? key with
  | none => (change []).map fun sub => fields.put key (.table .implied sub)
  | some (.table origin sub) => (change sub).map fun sub => fields.put key (.table origin sub)
  | some (.tables all) => (modifyLast? change all).map fun all => fields.put key (.tables all)
  | some _ => none

/-- Change the table at a path. -/
def modify? (change : Fields → Option Fields) : (path : List String) → Fields → Option Fields
  | [], fields => change fields
  | key :: rest, fields => modifyAt? (modify? change rest) key fields

/-- Define the table of a header below its parents. -/
def define? (key : String) (fields : Fields) : Option Fields :=
  match fields.get? key with
  | none => some (fields.put key (.table .headed []))
  | some (.table .implied sub) => some (fields.put key (.table .headed sub))
  | some _ => none

/-- Add a table for a header in double brackets. -/
def defineNext? (key : String) (fields : Fields) : Option Fields :=
  match fields.get? key with
  | none => some (fields.put key (.tables [[]]))
  | some (.tables all) => some (fields.put key (.tables (all ++ [[]])))
  | some _ => none

end Fields

end Lifter.Toml
