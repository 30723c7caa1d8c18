import Lifter.Explorer.Round
import Lifter.Text.Terminal

/-!
# Log records

What the command tells about its work while it goes on. A record is a message and then its fields,
each as a name and a value. A message can quote anything, so it is written in a form that is safe on
a terminal; fields are written as they are.

* `Level`, `Record`: records and how much they matter.
* `Record.line`: the line of a record.
* `Event.record`: an event of an exploration as a record.
-/

namespace Lifter

/-- How much a record matters. -/
inductive Level where
  | debug
  | info
  | warn
  | error
  deriving DecidableEq

/-- The written name of a level. -/
def Level.name : Level → String
  | .debug => "DEBUG"
  | .info => "INFO"
  | .warn => "WARN"
  | .error => "ERROR"

/-- A log record. -/
structure Record where
  level : Level
  message : String
  /-- Names and values, in the order in which they are written. -/
  fields : List (String × String)
  deriving DecidableEq

/-- One field on the line of a record. -/
def Record.fieldText (field : String × String) : String := " " ++ field.1 ++ "=" ++ field.2

/-- The line of a record. -/
def Record.line (r : Record) : String :=
  r.level.name ++ " " ++ Text.disarm r.message ++ String.join (r.fields.map Record.fieldText)

/-- The written name of a status in the log. -/
def Status.title : Status → String
  | .active => "Active"
  | .terminated => "Terminated"
  | .errored => "Errored"

/-- An event of an exploration as a record. -/
def Event.record : Event → Record
  | .forked state address consequent alternate =>
    ⟨.debug, "forked at branch",
      [("state", state.name), ("address", Text.hexadecimal address),
        ("consequent", consequent.name), ("alternate", alternate.name)]⟩
  | .diagnosed ⟨state, address, error⟩ =>
    ⟨.warn, error.message, [("state", state.name), ("address", Text.hexadecimal address)]⟩
  | .finished state status =>
    ⟨.debug, "state finished", [("state", state.name), ("status", status.title)]⟩

/-- The record of an exploration that has come to its end. -/
def Explorer.closingRecord (e : Explorer) : Record :=
  ⟨.info, "exploration finished",
    [("states", Text.decimal e.finished.size), ("steps", Text.decimal e.steps),
      ("diagnostics", Text.decimal e.diagnostics.size),
      ("truncated", if e.truncated then "true" else "false")]⟩

end Lifter
