import Lifter.Explorer.Basic

/-!
# Rounds of exploration

In a round the active states have their turns, in order. A turn is one instruction; what it emits
goes into the state's node. An error that is not one path's own ends the whole exploration.

* `Explorer.fork`: a state is split at a branch.
* `Explorer.visit`: the turn of one state.
* `Explorer.round`: one round.
* `Explorer.explore`: rounds until no state is active, as an `Exploration`.
-/

namespace Lifter.Explorer

/-- Cut off a state because no step is left. -/
def truncate (e : Explorer) (state : State) : Except TreeError Explorer := do
  let tree ← e.tree.append state.node PathError.budgetExhausted.placeholder
  let diagnostic : Diagnostic := ⟨state.id, state.path.address, .budgetExhausted⟩
  let e := { e with tree, truncated := true }.record diagnostic
  return { e with finished := e.finished.push { state with status := .errored } }

/-- Split a state at a branch: two new states with nodes of their own, joined by a conditional node
that continues the state's node. Gives the two states, the one at the jump target first. -/
def fork (e : Explorer) (state : State) (test : Comparison) (target : Nat) :
    Except TreeError (Explorer × List State) := do
  let (consequent, tree) := e.tree.addLinear
  let (alternate, tree) := tree.addLinear
  let (joint, tree) := tree.addConditional test consequent alternate
  let tree ← tree.continueWith state.node joint
  let taken : State :=
    { id := ⟨e.nextId⟩, parent := state.id, status := .active, node := consequent
      path := { state.path with position := target } }
  let other : State :=
    { id := ⟨e.nextId + 1⟩, parent := state.id, status := .active, node := alternate
      path := state.path }
  let event := Event.forked state.id state.path.address taken.id other.id
  return ({ e with tree, nextId := e.nextId + 2, events := e.events.push event }, [taken, other])

/-- What the turn of a state leaves: the exploration, the state itself if it is still active, and
the states that it was split into. -/
structure Turn where
  explorer : Explorer
  survivors : List State
  spawned : List State

/-- Run one instruction of a state. -/
def advance (e : Explorer) (state : State) : Except ExecutionError Turn := do
  let step ← (state.path.step e.program e.input).mapError .fault
  let tree ← (e.tree.appendAll state.node step.emitted).mapError .tree
  let e := { e with tree, steps := e.steps + 1 }
  let state := { state with path := step.path }
  match step.outcome with
  | .running => return ⟨e, [state], []⟩
  | .returned => return ⟨e.finish { state with status := .terminated }, [], []⟩
  | .stopped error =>
    let e := e.record ⟨state.id, state.path.address, error⟩
    return ⟨e.finish { state with status := .errored }, [], []⟩
  | .forked test target =>
    let (e, spawned) ← (e.fork state test target).mapError .tree
    return ⟨e.finish { state with status := .terminated }, [], spawned⟩

/-- The turn of a state: one instruction, or its end if no step is left. -/
def visit (e : Explorer) (state : State) : Except ExecutionError Turn :=
  if e.exhausted then do
    let e ← (e.truncate state).mapError .tree
    return ⟨e, [], []⟩
  else e.advance state

/-- The turns of several states, one after the other. `survivors` and `spawned` collect what they
leave. After an error the exploration is as it was before the turn that failed. -/
def sweep (e : Explorer) (survivors spawned : Array State) :
    List State → Explorer × Except ExecutionError (List State)
  | [] => (e, .ok (survivors.toList ++ spawned.toList))
  | state :: rest =>
    match e.visit state with
    | .error error => (e, .error error)
    | .ok turn =>
      turn.explorer.sweep (survivors ++ turn.survivors) (spawned ++ turn.spawned) rest

/-- Cut off several states, one after the other. -/
def truncateAll (e : Explorer) : List State → Explorer × Except TreeError Unit
  | [] => (e, .ok ())
  | state :: rest =>
    match e.truncate state with
    | .error error => (e, .error error)
    | .ok e => e.truncateAll rest

/-- One round: every active state has its turn. The states still active come first in the next
round and the new ones after them; if no step is left, they are cut off at once. Tells whether any
state is active. After an error none is. -/
def round (e : Explorer) : Explorer × Except ExecutionError Bool :=
  match { e with active := [] }.sweep #[] #[] e.active with
  | (e, .error error) => (e, .error error)
  | (e, .ok remaining) =>
    if e.exhausted then
      match e.truncateAll remaining with
      | (e, .error error) => (e, .error (.tree error))
      | (e, .ok ()) => (e, .ok false)
    else ({ e with active := remaining }, .ok !remaining.isEmpty)

/-- How an exploration ended. -/
inductive Exploration where
  /-- No state is active any more. -/
  | complete (explorer : Explorer)
  | failed (explorer : Explorer) (error : ExecutionError)
  /-- States are still active after the last round allowed. -/
  | unfinished (explorer : Explorer)

/-- Rounds until no state is active, at most `rounds` of them. -/
def explore (e : Explorer) : (rounds : Nat) → Exploration
  | 0 => .unfinished e
  | rounds + 1 =>
    match e.round with
    | (e, .error error) => .failed e error
    | (e, .ok true) => e.explore rounds
    | (e, .ok false) => .complete e

/-- As many rounds as a 64-bit counter of steps can tell apart: each round with an active state
takes a step. -/
def roundLimit : Nat := bound64

end Lifter.Explorer
