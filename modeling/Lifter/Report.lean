import Lifter.Explorer.Basic
import Lifter.Json.Printer

/-!
# Exploration reports

A summary of an exploration for other programs to read: the counts, and every finished state with
what was diagnosed of it.

* `Report.ofExplorer`: the report of an exploration.
* `Report.toJson`, `Report.text`: its JSON value and text.
-/

namespace Lifter

/-- What a report tells of a state. -/
structure StateReport where
  id : StateId
  parent : Option StateId
  status : Status
  finalAddress : Nat
  diagnostics : List Diagnostic

/-- A summary of an exploration. -/
structure Report where
  /-- The size of the program. -/
  instructions : Nat
  steps : Nat
  terminated : Nat
  errored : Nat
  truncated : Bool
  /-- The finished states in the order in which they finished. -/
  states : List StateReport

/-- What an exploration has to tell of one of its states. -/
def StateReport.ofState (e : Explorer) (state : State) : StateReport where
  id := state.id
  parent := state.parent
  status := state.status
  finalAddress := state.path.address
  diagnostics := e.diagnostics.toList.filter (·.state == state.id)

/-- The report of an exploration. -/
def Report.ofExplorer (e : Explorer) : Report where
  instructions := e.program.size
  steps := e.steps
  terminated := e.count .terminated
  errored := e.count .errored
  truncated := e.truncated
  states := e.finished.toList.map (StateReport.ofState e)

/-! ## Written form -/

/-- The written name of a status. -/
def Status.name : Status → String
  | .active => "active"
  | .terminated => "terminated"
  | .errored => "errored"

/-- The end of a path as a JSON value. -/
def PathError.toJson : PathError → Json
  | .unresolvableBranch offset =>
    .object [("kind", .string "unresolvable_branch"), ("offset", .string offset.text)]
  | .missingJumpTarget target =>
    .object [("kind", .string "missing_jump_target"), ("target", .integer target)]
  | .endOfProgram => .object [("kind", .string "end_of_program")]
  | .budgetExhausted => .object [("kind", .string "budget_exhausted")]

/-- A diagnostic as a JSON value. -/
def Diagnostic.toJson (d : Diagnostic) : Json :=
  .object [("state", .natural d.state.index), ("address", .natural d.address),
    ("error", d.error.toJson)]

/-- The report of a state as a JSON value. -/
def StateReport.toJson (r : StateReport) : Json :=
  .object [
    ("id", .natural r.id.index),
    ("parent", (r.parent.map fun id => Json.natural id.index).getD .null),
    ("status", .string r.status.name),
    ("final_address", .natural r.finalAddress),
    ("diagnostics", .array (r.diagnostics.map Diagnostic.toJson))]

/-- A report as a JSON value. -/
def Report.toJson (r : Report) : Json :=
  .object [
    ("instructions", .natural r.instructions),
    ("steps", .natural r.steps),
    ("terminated", .natural r.terminated),
    ("errored", .natural r.errored),
    ("truncated", .bool r.truncated),
    ("states", .array (r.states.map StateReport.toJson))]

/-- The text of a report. -/
def Report.text (r : Report) : String := r.toJson.pretty

end Lifter
