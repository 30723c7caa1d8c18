import Lifter.Path
import Lifter.StatementTree

/-!
# Exploration of all paths

All paths of a program are explored side by side, in rounds: in a round every active state runs one
instruction. A state at a conditional jump that can be followed ends there, and two new states go on
in the two branches. All states write into one statement tree, each into a node of its own. A step
budget, if there is one, bounds the steps of all states together; the states that are then still
active are cut off.

* `State`, `Explorer`: an exploration under way.
* `Explorer.initial`: before the first step.
* `Explorer.lines`, `Explorer.pseudocode`: what has been written so far.
-/

namespace Lifter

/-- Where a state is in its life. -/
inductive Status where
  | active
  /-- It returned, or handed over to two others at a branch. -/
  | terminated
  /-- It ended before the program did. -/
  | errored
  deriving DecidableEq

/-- The number of a state, in the order in which states come into being. -/
structure StateId where
  index : Nat
  deriving DecidableEq

/-- The written name of a state. -/
def StateId.name (id : StateId) : String := "#" ++ Text.decimal id.index

/-- A path in an exploration. -/
structure State where
  id : StateId
  /-- The state it was forked from. -/
  parent : Option StateId
  status : Status
  /-- The node that takes its statements. -/
  node : NodeId
  path : Path

/-- The end of a path, and where it was. -/
structure Diagnostic where
  state : StateId
  address : Nat
  error : PathError

/-- What can be said about an exploration while it goes on. -/
inductive Event where
  | forked (state : StateId) (address : Nat) (consequent alternate : StateId)
  | diagnosed (diagnostic : Diagnostic)
  | finished (state : StateId) (status : Status)

/-- Why an exploration cannot go on. -/
inductive ExecutionError where
  | fault (cause : Fault)
  | tree (cause : TreeError)

/-- The wording of a failed exploration. -/
def ExecutionError.message : ExecutionError → String
  | .fault cause => cause.message
  | .tree cause => cause.message

/-- An exploration under way. -/
structure Explorer where
  program : Program
  input : Input
  /-- How many steps all states together may take. -/
  budget : Option Nat
  tree : StatementTree Statement Comparison
  /-- The node of the first state. -/
  root : NodeId
  /-- The states that will have a turn in the next round, in this order. -/
  active : List State
  /-- The states that have come to an end, in the order in which they did. -/
  finished : Array State
  /-- The number of the next state. -/
  nextId : Nat
  /-- The steps taken so far. -/
  steps : Nat
  diagnostics : Array Diagnostic
  /-- Whether the budget has cut off a state. -/
  truncated : Bool
  /-- What has happened so far. -/
  events : Array Event

namespace Explorer

/-- An exploration before its first step: one state at the first instruction. -/
def initial (program : Program) (input : Input) (budget : Option Nat) : Explorer :=
  let (root, tree) := StatementTree.empty.addLinear
  { program, input, budget, tree, root
    active := [⟨⟨0⟩, none, .active, root, .initial⟩]
    finished := #[]
    nextId := 1
    steps := 0
    diagnostics := #[]
    truncated := false
    events := #[] }

/-- Whether no step is left. -/
def exhausted (e : Explorer) : Bool := e.budget.any (· ≤ e.steps)

/-- Note the end of a path. -/
def record (e : Explorer) (diagnostic : Diagnostic) : Explorer :=
  { e with
    diagnostics := e.diagnostics.push diagnostic
    events := e.events.push (.diagnosed diagnostic) }

/-- Take a state that has come to an end. -/
def finish (e : Explorer) (state : State) : Explorer :=
  { e with
    finished := e.finished.push state
    events := e.events.push (.finished state.id state.status) }

/-- The lines of the pseudocode. -/
def lines (e : Explorer) : List String := e.tree.lines e.root

/-- The pseudocode as a complete function. -/
def pseudocode (e : Explorer) : String := functionText e.lines

/-- The number of finished states with a given status. -/
def count (e : Explorer) (status : Status) : Nat := e.finished.countP (·.status == status)

end Explorer

end Lifter
