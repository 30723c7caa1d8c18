import Lifter.Config.Basic
import Lifter.Toml.Document

/-!
# Configuration files

A configuration file is a TOML document with two sections, `read_str` with `length` and `name`, and
`exploration` with `step_budget`. Everything may be left out, and nothing else may stand there. A
section can also be given as an array of its entries in that order.

* `Layer.ofToml?`: the layer that a document describes.
* `Layer.ofFile`: the layer in the contents of a file.
-/

namespace Lifter

namespace Toml

/-- The entries of a section by name, each of them possibly missing. An array gives all of them, and
what it has beyond them is not looked at. -/
def sectionEntries? (names : List String) : Item → Option (List (Option Item))
  | .table _ fields | .inline fields =>
    if fields.all fun (name, _) => names.contains name then
      some (names.map (Fields.get? fields))
    else none
  | .array items =>
    if items.length < names.length then none else some ((items.take names.length).map some)
  | _ => none

/-- A whole number that is not negative. -/
def Item.natural? : Item → Option Nat
  | .integer (.ofNat n) => some n
  | _ => none

/-- A string. -/
def Item.string? : Item → Option String
  | .string s => some s
  | _ => none

/-- Read an entry that may be missing but not be of another type. -/
def optional? {α : Type} (read? : Item → Option α) : Option Item → Option (Option α)
  | none => some none
  | some item => (read? item).map some

/-- A section that may be missing. -/
def section? (fields : Fields) (name : String) (entries : List String) :
    Option (List (Option Item)) :=
  match fields.get? name with
  | none => some (entries.map fun _ => none)
  | some item => sectionEntries? entries item

end Toml

namespace Layer

open Toml in
/-- The layer that a document describes. -/
def ofToml? (fields : Toml.Fields) : Option Layer := do
  guard (fields.all fun (name, _) => name == "read_str" || name == "exploration")
  let [length, name] ← section? fields "read_str" ["length", "name"] | none
  let [budget] ← section? fields "exploration" ["step_budget"] | none
  let inputLength ← optional? Item.natural? length
  let inputName ← optional? Item.string? name
  let stepBudget ← optional? Item.natural? budget
  return { inputLength, inputName, stepBudget }

/-- The layer in the contents of a file; the path is for messages. -/
def ofFile (path : String) (contents : ByteArray) : Except ConfigError Layer :=
  match String.fromUTF8? contents with
  | none => .error (.unreadable path .notText)
  | some text =>
    match (Toml.parse? text).bind ofToml? with
    | none => .error (.malformed path)
    | some layer => .ok layer

end Layer

end Lifter
