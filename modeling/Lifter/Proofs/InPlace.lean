import Lifter.Proofs.Kinship
import Lifter.Proofs.Midround
import Lifter.Proofs.StepForm

/-!
# Rounds in place

`Explorer.round` takes a turn as a whole: a turn that fails leaves the exploration before it. Here
the same round is done **in place**, with one change after the other made to the exploration itself:
statements are written as they are emitted, numbers and nodes are handed out one at a time, and an
error leaves behind whatever has been done by then. That the two agree says that no instruction
changes anything before all its checks have passed.

* `Explorer.InPlace.Action`: work on an exploration that is not undone by an error.
* `Explorer.InPlace.perform`, `Explorer.InPlace.turn`, `Explorer.InPlace.round`: an instruction, a
  turn and a round in place.
* `Explorer.InPlace.turn_on`, **`Explorer.InPlace.round_on`**: they do what a turn and a round do.
* **`Explorer.failed_round_leaves_no_trace`**: what a failed round leaves.
-/

namespace Lifter.Explorer

namespace InPlace

/-! ## Actions -/

/-- Work on an exploration that may fail. What has been done before an error stays done. -/
abbrev Action (α : Type) : Type := ExceptT ExecutionError (StateM Explorer) α

/-- Do the work on an exploration. -/
def Action.on {α : Type} (action : Action α) (e : Explorer) :
    Explorer × Except ExecutionError α :=
  (action.run.run e).swap

/-- Put a statement at the end of a node. -/
def write (node : NodeId) (statement : Statement) : Action Unit := do
  let e ← get
  match e.tree.append node statement with
  | .error error => throw (.tree error)
  | .ok tree => set { e with tree }

/-- Put statements at the end of a node, one after the other. -/
def writeAll (node : NodeId) : List Statement → Action Unit
  | [] => return
  | statement :: rest => do
    write node statement
    writeAll node rest

/-- Make a linear node. -/
def newLinear : Action NodeId :=
  modifyGet fun e => (e.tree.addLinear.1, { e with tree := e.tree.addLinear.2 })

/-- Make a node that branches to two nodes. -/
def newConditional (test : Comparison) (consequent alternate : NodeId) : Action NodeId :=
  modifyGet fun e =>
    let (id, tree) := e.tree.addConditional test consequent alternate
    (id, { e with tree })

/-- Say what follows a node. -/
def continueWith (node target : NodeId) : Action Unit := do
  let e ← get
  match e.tree.continueWith node target with
  | .error error => throw (.tree error)
  | .ok tree => set { e with tree }

/-- Hand out the next number. -/
def freshId : Action StateId := modifyGet fun e => (⟨e.nextId⟩, { e with nextId := e.nextId + 1 })

/-- The result of an operation of the instruction at an address. -/
def evaluate {α : Type} (address : Nat) : Except EvalError α → Action α
  | .error error => throw (.fault (.evaluation address error))
  | .ok a => return a

/-! ## One instruction -/

/-- What an instruction leaves of its state, besides what it did to the exploration. -/
structure Result where
  state : State
  /-- The states that it was split into. -/
  spawned : List State
  /-- Why the state has come to an end early. -/
  error : Option PathError

/-- Write the placeholder of an early end into the state's node. -/
def abandon (s : State) (error : PathError) : Action State := do
  write s.node error.placeholder
  return { s with status := .errored }

/-- End a state early, with an error to be noted. -/
def stop (s : State) (error : PathError) : Action Result := do
  return ⟨← abandon s error, [], some error⟩

/-- A copy of a state that goes on at a position, in a node of its own. -/
def spawn (s : State) (position : Nat) : Action State := do
  let id ← freshId
  let node ← newLinear
  return { id, parent := s.id, status := .active, node, path := { s.path with position } }

/-- Split a state at a branch. -/
def split (s : State) (test : Comparison) (target : Nat) : Action Result := do
  let consequent ← spawn s target
  let alternate ← spawn s s.path.position
  let joint ← newConditional test consequent.node alternate.node
  continueWith s.node joint
  let event := Event.forked s.id s.path.address consequent.id alternate.id
  modify fun e => { e with events := e.events.push event }
  return ⟨{ s with status := .terminated }, [consequent, alternate], none⟩

/-- Run a conditional jump. -/
def branch (s : State) (condition : Condition) (offset left right : Register) : Action Result :=
  match s.path.registers.get offset with
  | .symbolic expression => stop s (.unresolvableBranch expression)
  | .concrete text => do
    let offset ← evaluate s.path.address (Value.integer text)
    match Path.jumpTarget? s.path.address offset with
    | none => throw (.fault (.evaluation s.path.address .overflow))
    | some target =>
      match (← get).program.positionOf? target with
      | none => stop s (.missingJumpTarget target)
      | some position =>
        split s ⟨s.path.registers.get left, condition, s.path.registers.get right⟩ position

/-- Write the result of an operation to a register. -/
def compute (s : State) (target : Register) (result : Except EvalError Value) : Action Result := do
  let value ← evaluate s.path.address result
  return ⟨{ s with path.registers := s.path.registers.set target value }, [], none⟩

/-- Read input into a register. -/
def readInput (s : State) (target : Register) : Action Result := do
  let input := (← get).input
  let name := input.bufferName s.path.reads
  let s := { s with path.reads := s.path.reads + 1 }
  writeAll s.node (Statement.readInput name input.length)
  let buffer := Value.symbolic (.buffer name (some input.length))
  return ⟨{ s with path.registers := s.path.registers.set target buffer }, [], none⟩

/-- Run an instruction of a state that has taken its address and stands at the one after it. -/
def run (s : State) (instruction : Instruction) : Action Result :=
  let value := s.path.registers.get
  match instruction with
  | .jump _ => throw (.fault (.unsupported s.path.address instruction))
  | .branch condition offset left right => branch s condition offset left right
  | .clear target => compute s target (.ok .empty)
  | .set target literal => compute s target (.ok (.concrete literal))
  | .append target literal => compute s target (.ok ((value target).append literal))
  | .concat target left right => compute s target (.ok ((value left).concat (value right)))
  | .dropLast target => compute s target (.ok (value target).dropLast)
  | .add target left right => compute s target ((value left).add (value right))
  | .negate target => compute s target (value target).negate
  | .character target source => compute s target (value source).character
  | .lastCode target source => compute s target (value source).lastCode
  | .print source => do
    write s.node (.print (value source))
    return ⟨s, [], none⟩
  | .read target => readInput s target
  | .ret => do
    write s.node .ret
    return ⟨{ s with status := .terminated }, [], none⟩

/-- Run the next instruction of a state. -/
def perform (s : State) : Action Result := do
  match (← get).program.get? s.path.position with
  | none => stop s .endOfProgram
  | some ⟨address, instruction⟩ =>
    run { s with path.address := address, path.position := s.path.position + 1 } instruction

/-! ## Turns and rounds -/

/-- Cut off a state because no step is left. -/
def cutOff (s : State) : Action Unit := do
  modify fun e => { e with truncated := true }
  let s ← abandon s .budgetExhausted
  modify fun e => e.record ⟨s.id, s.path.address, .budgetExhausted⟩
  modify fun e => { e with finished := e.finished.push s }

/-- Count a step and take note of what it left: the state if it is still active, and the states that
it was split into. -/
def conclude (result : Result) : Action (List State × List State) := do
  modify fun e => { e with steps := e.steps + 1 }
  if let some error := result.error then
    modify fun e => e.record ⟨result.state.id, result.state.path.address, error⟩
  if result.state.status = .active then
    return ([result.state], result.spawned)
  else
    modify fun e => e.finish result.state
    return ([], result.spawned)

/-- The turn of a state. -/
def turn (s : State) : Action (List State × List State) := do
  if (← get).exhausted then
    cutOff s
    return ([], [])
  else conclude (← perform s)

/-- The turns of several states. -/
def turns (survivors spawned : Array State) : List State → Action (List State)
  | [] => return survivors.toList ++ spawned.toList
  | s :: rest => do
    let (kept, born) ← turn s
    turns (survivors ++ kept) (spawned ++ born) rest

/-- Cut off several states. -/
def cutOffAll : List State → Action Unit
  | [] => return
  | s :: rest => do
    cutOff s
    cutOffAll rest

/-- One round, in place. -/
def round : Action Bool := do
  let snapshot := (← get).active
  modify fun e => { e with active := [] }
  let remaining ← turns #[] #[] snapshot
  if (← get).exhausted then
    cutOffAll remaining
  else
    modify fun e => { e with active := remaining }
  return !(← get).active.isEmpty

/-! ## The same work -/

variable {α β : Type} {e e' : Explorer} {s : State} {statements : Array Statement}

@[simp] theorem on_pure (a : α) : (pure a : Action α).on e = (e, .ok a) := rfl

@[simp] theorem on_throw (error : ExecutionError) :
    (throw error : Action α).on e = (e, .error error) := rfl

@[simp] theorem on_get : (get : Action Explorer).on e = (e, .ok e) := rfl

@[simp] theorem on_set : (set e' : Action PUnit).on e = (e', .ok ⟨⟩) := rfl

@[simp] theorem on_modifyGet (f : Explorer → α × Explorer) :
    (modifyGet f : Action α).on e = ((f e).2, .ok (f e).1) := rfl

@[simp] theorem on_modify (f : Explorer → Explorer) :
    (modify f : Action PUnit).on e = (f e, .ok ⟨⟩) := rfl

@[simp] theorem on_bind (action : Action α) (next : α → Action β) :
    (action >>= next).on e = match action.on e with
      | (e', .ok a) => (next a).on e'
      | (e', .error error) => (e', .error error) := by
  have hrun : (action >>= next).run.run e = match action.run.run e with
      | (.ok a, e') => (next a).run.run e'
      | (.error error, e') => (.error error, e') := by
    simp only [ExceptT.run_bind, StateT.run_bind]
    rcases action.run.run e with ⟨_ | _, _⟩ <;> rfl
  unfold Action.on
  rw [hrun]
  rcases action.run.run e with ⟨_ | _, _⟩ <;> rfl

@[simp] theorem on_map (f : α → β) (action : Action α) :
    (f <$> action).on e = match action.on e with
      | (e', .ok a) => (e', .ok (f a))
      | (e', .error error) => (e', .error error) := by
  rw [← bind_pure_comp, on_bind]
  rfl

variable {tree : StatementTree Statement Comparison}

theorem write_on {node : NodeId} {statement : Statement}
    (h : e.tree.append node statement = .ok tree) :
    (write node statement).on e = ({ e with tree }, .ok ()) := by
  simp [write, h]

theorem writeAll_on {node : NodeId} {written : List Statement}
    (h : e.tree.appendAll node written = .ok tree) :
    (writeAll node written).on e = ({ e with tree }, .ok ()) := by
  induction written generalizing e with
  | nil =>
    cases h
    rfl
  | cons statement rest ih =>
    obtain ⟨next, hnext, hrest⟩ := exists_of_bind_eq_ok h
    rw [writeAll, on_bind, write_on hnext]
    exact ih hrest

theorem abandon_on {error : PathError} (h : e.tree.append s.node error.placeholder = .ok tree) :
    (abandon s error).on e = ({ e with tree }, .ok { s with status := .errored }) := by
  simp only [abandon, on_bind, write_on h, on_pure]

theorem continueWith_on {node target : NodeId} (h : e.tree.continueWith node target = .ok tree) :
    (continueWith node target).on e = ({ e with tree }, .ok ()) := by
  simp [continueWith, h]

/-- Splitting a state bit by bit. -/
theorem split_on {test : Comparison} {target : Nat} {spawned : List State}
    (h : e.fork s test target = .ok (e', spawned)) :
    (split s test target).on e =
      (e', .ok ⟨{ s with status := .terminated }, spawned, none⟩) := by
  obtain ⟨tree, htree, hrest⟩ := exists_of_bind_eq_ok h
  cases hrest
  have hjoin : (continueWith s.node (e.tree.addLinear.2.addLinear.2.addConditional test
      e.tree.addLinear.1 e.tree.addLinear.2.addLinear.1).1).on
        { e with
          tree := (e.tree.addLinear.2.addLinear.2.addConditional test e.tree.addLinear.1
            e.tree.addLinear.2.addLinear.1).2
          nextId := e.nextId + 1 + 1 } = ({ e with tree, nextId := e.nextId + 2 }, .ok ()) :=
    continueWith_on htree
  simp only [split, spawn, freshId, newLinear, newConditional, on_bind, on_modifyGet, on_pure,
    hjoin, on_modify]
  rfl

/-! ## Checks come first -/

/-- Do what a step asks for, once all its checks have passed. -/
def commit (s : State) (step : Step) : Action Result := do
  writeAll s.node step.emitted
  let s := { s with path := step.path }
  match step.outcome with
  | .running => return ⟨s, [], none⟩
  | .returned => return ⟨{ s with status := .terminated }, [], none⟩
  | .stopped error => return ⟨{ s with status := .errored }, [], some error⟩
  | .forked test target => split s test target

/-- What becomes of a checked step. -/
def attempt (s : State) : Except Fault Step → Action Result
  | .error fault => throw (.fault fault)
  | .ok step => commit s step

theorem stop_eq_commit (error : PathError) : stop s error = commit s (s.path.stop error) := by
  simp only [stop, abandon, commit, Path.stop, writeAll, bind_assoc, pure_bind]

theorem compute_eq_attempt (target : Register) (result : Except EvalError Value) :
    compute s target result = attempt s ((s.path.attempt result).map (s.path.write target)) := by
  cases result with
  | error error => rfl
  | ok value => rfl

theorem branch_on (condition : Condition) (offset left right : Register) :
    (branch s condition offset left right).on e =
      (attempt s (s.path.branch e.program condition offset left right)).on e := by
  cases hv : s.path.registers.get offset with
  | symbolic expression =>
    rw [Path.branch_of_symbolic hv]
    simp only [branch, hv, attempt, stop_eq_commit]
  | concrete text =>
    cases ht : Value.integer text with
    | error error =>
      rw [Path.branch_of_error hv ht]
      simp only [branch, hv, ht, evaluate, on_bind, attempt, on_throw]
    | ok n =>
      rw [Path.branch_of_integer hv ht]
      simp only [branch, hv, ht, evaluate, on_bind, on_pure]
      cases Path.jumpTarget? s.path.address n with
      | none => rfl
      | some target =>
        simp only [on_bind, on_get]
        cases e.program.positionOf? target with
        | none => simp only [attempt, stop_eq_commit]
        | some position => simp only [attempt, commit, writeAll, pure_bind]

/-- **All checks of an instruction come before everything that it does.** -/
theorem run_on (instruction : Instruction) :
    (run s instruction).on e =
      (attempt s (Path.run e.program e.input s.path instruction)).on e := by
  cases instruction with
  | jump offset => rfl
  | branch condition offset left right => exact branch_on condition offset left right
  | clear | set | append | concat | dropLast | add | negate | character | lastCode =>
    exact congrArg (Action.on · e) (compute_eq_attempt _ _)
  | print source => simp only [run, Path.run, attempt, commit, writeAll, bind_assoc, pure_bind]
  | read target =>
    simp only [run, readInput, Path.run, attempt, commit, Path.readInput, on_bind, on_get]
  | ret => simp only [run, Path.run, attempt, commit, writeAll, bind_assoc, pure_bind]

theorem perform_on : (perform s).on e = (attempt s (s.path.step e.program e.input)).on e := by
  simp only [perform, on_bind, on_get, Path.step]
  cases e.program.get? s.path.position with
  | none => rw [stop_eq_commit]; rfl
  | some placed => exact run_on placed.instruction

/-! ## Turns in an open node -/

variable {step : Step}

theorem commit_on (h : e.tree.node? s.node = some (.linear statements none)) :
    (commit s step).on e =
      let after := { e with
        tree := e.tree.replace s.node (.linear (statements ++ step.emitted.toArray) none) }
      match step.outcome with
      | .running => (after, .ok ⟨{ s with path := step.path }, [], none⟩)
      | .returned => (after, .ok ⟨{ s with path := step.path, status := .terminated }, [], none⟩)
      | .stopped error =>
        (after, .ok ⟨{ s with path := step.path, status := .errored }, [], some error⟩)
      | .forked test target => (split { s with path := step.path } test target).on after := by
  simp only [commit, on_bind, writeAll_on (StatementTree.appendAll_eq h _)]
  cases step.outcome <;> rfl

/-- **A turn in place is a turn.** -/
theorem turn_on_of_step (h : e.tree.node? s.node = some (.linear statements none))
    (hx : e.exhausted = false) (hs : s.status = .active)
    (hstep : s.path.step e.program e.input = .ok step) :
    (turn s).on e = ((e.settle s statements step).explorer,
      .ok ((e.settle s statements step).survivors, (e.settle s statements step).spawned)) := by
  have hperform := perform_on (s := s) (e := e)
  rw [hstep] at hperform
  simp only [turn, on_bind, on_get, hx, Bool.false_eq_true, if_false, hperform, attempt,
    commit_on h]
  obtain ⟨emitted, path, outcome⟩ := step
  cases outcome with
  | running => simp [conclude, settle, hs]
  | returned => simp [conclude, settle]
  | stopped error => simp [conclude, settle]
  | forked test target =>
    have hlt := StatementTree.index_lt_of_node? h
    have hnode : (e.tree.replace s.node (.linear (statements ++ emitted.toArray) none)).node?
        s.node = some (.linear (statements ++ emitted.toArray) none) :=
      StatementTree.node?_replace_self hlt
    have hfork := fork_eq (s := { s with path }) (e := { e with
      tree := e.tree.replace s.node (.linear (statements ++ emitted.toArray) none) }) hnode test
        target
    have hsplit := split_on hfork
    simp only [hsplit]
    simp [conclude, settle, children, StatementTree.graft_replace hlt]

theorem turn_on_of_fault (hx : e.exhausted = false) {fault : Fault}
    (hstep : s.path.step e.program e.input = .error fault) :
    (turn s).on e = (e, .error (.fault fault)) := by
  simp [turn, hx, perform_on, hstep, attempt]

theorem cutOff_on (h : e.truncate s = .ok e') : (cutOff s).on e = (e', .ok ()) := by
  obtain ⟨tree, htree, hrest⟩ := exists_of_bind_eq_ok h
  cases hrest
  have habandon := abandon_on (e := { e with truncated := true }) htree
  simp only [cutOff, on_bind, on_modify, habandon]

theorem turn_on_of_exhausted (h : e.tree.node? s.node = some (.linear statements none))
    (hx : e.exhausted = true) : (turn s).on e = (e.cutOff s statements, .ok ([], [])) := by
  simp [turn, hx, cutOff_on (truncate_eq h)]

/-! ## Rounds -/

/-- The states in `live` are active, each in an open node of its own. -/
abbrev Alive (e : Explorer) (live : List State) : Prop :=
  Holds (fun _ e live => Census e live) e live

variable {rest : List State}

/-- **A turn in place is a turn**, and a turn that fails changes nothing. -/
theorem turn_on (h : Alive e (s :: rest)) :
    (turn s).on e = match e.visit s with
      | .ok turn => (turn.explorer, .ok (turn.survivors, turn.spawned))
      | .error error => (e, .error error) := by
  obtain ⟨g, hg, hcensus⟩ := h
  obtain ⟨statements, hnode⟩ := hg.open_node List.mem_cons_self
  cases hx : e.exhausted with
  | true => rw [visit_of_exhausted hnode hx, turn_on_of_exhausted hnode hx]
  | false =>
    have hs := hcensus.alive s List.mem_cons_self
    cases hstep : s.path.step e.program e.input with
    | error fault => rw [visit_of_fault hnode hx hstep, turn_on_of_fault hx hstep]
    | ok step => rw [visit_of_step hnode hx hstep, turn_on_of_step hnode hx hs hstep]

/-- **Turns in place are turns.** -/
theorem turns_on (waiting : List State) {survivors spawned : Array State}
    (h : Alive e (waiting ++ (survivors.toList ++ spawned.toList))) :
    (turns survivors spawned waiting).on e = e.sweep survivors spawned waiting := by
  induction waiting generalizing e survivors spawned with
  | nil => rfl
  | cons s rest ih =>
    rw [turns, on_bind, turn_on h, sweep]
    rcases invariant_census.visit h with ⟨turn, hvisit, -, g, hg, hcensus⟩ | ⟨fault, hvisit, -⟩
    · have hlive := turn.perm_live rest survivors spawned
      rw [hvisit]
      exact ih ⟨g, hg.perm hlive, hcensus.perm hlive⟩
    · rw [hvisit]

theorem cutOffAll_on {live : List State} (h : e.truncateAll live = (e', .ok ())) :
    (cutOffAll live).on e = (e', .ok ()) := by
  induction live generalizing e with
  | nil =>
    cases h
    rfl
  | cons s rest ih =>
    unfold truncateAll at h
    split at h
    · cases h
    · rename_i next hnext
      rw [cutOffAll, on_bind, cutOff_on hnext]
      exact ih h

theorem round_on_of_alive (h : Alive e e.active) : round.on e = e.round := by
  have hstart : Alive { e with active := [] } (e.active ++ (#[].toList ++ #[].toList)) := by
    simpa using h.active invariant_census []
  have hturns := turns_on e.active hstart
  simp only [round, on_bind, on_get, on_modify, hturns, Explorer.round]
  rcases invariant_census.sweep e.active hstart with
    ⟨e', remaining, hs, hsame, hh⟩ | ⟨e', fault, left, hs, -⟩
  · simp only [hs]
    by_cases hx : e'.exhausted = true
    · obtain ⟨e'', hall, hsame', -⟩ := invariant_census.truncateAll hx hh
      have hactive : e''.active = [] := hsame'.active.trans hsame.active
      simp [hx, hall, cutOffAll_on hall, hactive]
    · simp [hx]
  · simp only [hs]

variable {program : Program} {input : Input} {budget : Option Nat}

/-- **A round in place is a round.** -/
theorem round_on (h : Reachable program input budget e) : round.on e = e.round := by
  obtain ⟨live, hlive, rfl | hidle⟩ := invariant_census.of_reachable
    ⟨_, grown_initial program input budget, census_initial program input budget⟩ h
  · exact round_on_of_alive hlive
  · have hsame : { e with active := [] } = e := by rw [← hidle]
    rw [round_of_idle hidle]
    by_cases hx : e.exhausted = true
    · simp [round, hidle, turns, hsame, hx, cutOffAll]
    · simp [round, hidle, turns, hsame, hx]

end InPlace

/-! ## Failed rounds -/

variable {program : Program} {input : Input} {budget : Option Nat} {e : Explorer}

/-- **A failed round leaves nothing of the state that failed.** A round done in place is a round, so
that an error undoes nothing and there is nothing to undo. If it fails, it does so in the turn of an
active state whose next instruction cannot be run. The exploration is then as the turns before have
left it, no state is active any more, and later calls change nothing. -/
theorem failed_round_leaves_no_trace (h : Reachable program input budget e) :
    InPlace.round.on e = e.round ∧
    ∀ e' error, e.round = (e', .error error) →
      (∃ m s rest address instruction, Underway e m ∧ m.waiting = s :: rest ∧
        m.waiting <:+ e.active ∧ e' = m.explorer ∧
        program.get? s.path.position = some ⟨address, instruction⟩ ∧
        (error = .fault (.unsupported address instruction) ∨
          ∃ cause, error = .fault (.evaluation address cause))) ∧
      e'.active = [] ∧ e'.round = (e', .ok false) ∧
      ∀ rounds, e'.explore (rounds + 1) = .complete e' := by
  refine ⟨InPlace.round_on h, fun e' error hround => ?_⟩
  obtain ⟨m, s, rest, fault, hm, hw, rfl, hstep, rfl⟩ :=
    Underway.exists_of_error (invariant_setting program input budget) h.setting hround
  obtain ⟨⟨g, -, hprogram, -⟩, hidle⟩ := hm.holds (invariant_setting program input budget) h.setting
  obtain ⟨address, instruction, hget, hfault⟩ := Path.exists_of_fault hstep
  rw [hprogram] at hget
  have hlater : m.explorer.round = (m.explorer, .ok false) := round_of_idle hidle
  refine ⟨⟨m, s, rest, address, instruction, hm, hw, hm.suffix, rfl, hget, ?_⟩, hidle, hlater,
    fun rounds => ?_⟩
  · rcases hfault with rfl | ⟨cause, rfl⟩
    · exact Or.inl rfl
    · exact Or.inr ⟨cause, rfl⟩
  · rw [explore, hlater]

/-- Two states are active. The first prints, and the second comes to an instruction that cannot be
run: the print stays and is counted. -/
theorem print_before_failed_jump :
    let program := Program.ofList [⟨0, .set ⟨5⟩ "1"⟩, ⟨1, .branch .less ⟨5⟩ ⟨6⟩ ⟨7⟩⟩,
      ⟨2, .jump ⟨5⟩⟩, ⟨3, .print ⟨5⟩⟩, ⟨4, .ret⟩]
    let e := (initial program ⟨1, "flag"⟩ none).afterRounds 2
    e.active.length = 2 ∧ e.round.1.steps = 3 ∧ e.round.2.toOption = none ∧
      InPlace.round.on e = e.round ∧
      ∃ m s rest, Underway e m ∧ m.waiting = s :: rest ∧ e.round.1 = m.explorer ∧
        e.round.1.round = (e.round.1, .ok false) := by
  intro program e
  have hreachable : Reachable program ⟨1, "flag"⟩ none e := .round (.round .initial)
  have hnone : e.round.2.toOption = none := by decide +kernel
  refine ⟨by decide +kernel, by decide +kernel, hnone, ?_⟩
  clear_value e
  obtain ⟨hplace, hfailed⟩ := failed_round_leaves_no_trace hreachable
  cases hresult : e.round.2 with
  | ok more =>
    rw [hresult] at hnone
    cases hnone
  | error error =>
    obtain ⟨⟨m, s, rest, -, -, hm, hw, -, he, -⟩, -, hlater, -⟩ :=
      hfailed _ _ (Prod.ext rfl hresult)
    exact ⟨hplace, m, s, rest, hm, hw, he, hlater⟩

end Lifter.Explorer
