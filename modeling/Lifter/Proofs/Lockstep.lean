import Lifter.Proofs.Blank
import Lifter.Proofs.Round
import Mathlib.Data.List.Forall2

/-!
# Explorations with different inputs

What an exploration does never depends on the input it is set up with, neither on its length nor on
its name. Two explorations of one program with one budget go through their rounds in lockstep: they
are the same up to blanks after every round, so they take the same branches in the same order, and
each register of a state is known in both or in neither.

* `StatementTree.map`: a tree with other statements and tests in the same nodes.
* `State.blank`, `Explorer.blank`, ...: an exploration with the input blanked out.
* `Explorer.blank_visit`, `Explorer.blank_sweep`, **`Explorer.blank_round`**: turns and rounds of
  explorations that are the same up to blanks.
* `State.Twin`, `Explorer.Lockstep`: the same, part by part.
* **`Explorer.lockstep_of_rounds`**: any number of rounds with any two inputs.
-/

namespace Lifter

/-! ## Trees -/

/-- A node with other statements and another test. -/
def Node.map {σ σ' τ τ' : Type} (f : σ → σ') (g : τ → τ') : Node σ τ → Node σ' τ'
  | linear statements next => linear (statements.map f) next
  | conditional test consequent alternate => conditional (g test) consequent alternate

namespace StatementTree

variable {σ σ' τ τ' : Type} {f : σ → σ'} {g : τ → τ'}

/-- A tree with other statements and tests in the same nodes. -/
def map (f : σ → σ') (g : τ → τ') (tree : StatementTree σ τ) : StatementTree σ' τ' :=
  ⟨tree.nodes.map (Node.map f g)⟩

theorem node?_map (tree : StatementTree σ τ) (id : NodeId) :
    (tree.map f g).node? id = (tree.node? id).map (Node.map f g) := by
  simp [map, node?]

theorem map_add (tree : StatementTree σ τ) (node : Node σ τ) :
    (tree.map f g).add (node.map f g) = ((tree.add node).1, (tree.add node).2.map f g) := by
  simp [map, add, size]

theorem map_addLinear (tree : StatementTree σ τ) :
    (tree.map f g).addLinear = (tree.addLinear.1, tree.addLinear.2.map f g) := by
  have hadd := map_add (f := f) (g := g) tree (.linear #[] none)
  simpa only [Node.map, Array.map_empty, addLinear] using hadd

theorem map_addConditional (tree : StatementTree σ τ) (test : τ) (consequent alternate : NodeId) :
    (tree.map f g).addConditional (g test) consequent alternate =
      ((tree.addConditional test consequent alternate).1,
        (tree.addConditional test consequent alternate).2.map f g) :=
  map_add tree (.conditional test consequent alternate)

theorem map_replace (tree : StatementTree σ τ) (id : NodeId) (node : Node σ τ) :
    (tree.map f g).replace id (node.map f g) = (tree.replace id node).map f g := by
  simp [map, replace, Array.map_setIfInBounds]

theorem map_append (tree : StatementTree σ τ) (id : NodeId) (statement : σ) :
    (tree.map f g).append id (f statement) = (tree.append id statement).map (map f g) := by
  unfold append
  rw [node?_map]
  cases tree.node? id with
  | none => rfl
  | some node =>
    cases node with
    | linear statements next =>
      have hreplace := map_replace (f := f) (g := g) tree id
        (.linear (statements.push statement) next)
      simp only [Node.map, Array.map_push] at hreplace
      exact congrArg Except.ok hreplace
    | conditional test consequent alternate => rfl

theorem map_appendAll (tree : StatementTree σ τ) (id : NodeId) (statements : List σ) :
    (tree.map f g).appendAll id (statements.map f) =
      (tree.appendAll id statements).map (map f g) := by
  induction statements generalizing tree with
  | nil => rfl
  | cons statement rest ih =>
    simp only [List.map_cons, appendAll, map_append]
    cases tree.append id statement with
    | error error => rfl
    | ok tree => exact ih tree

theorem map_continueWith (tree : StatementTree σ τ) (id target : NodeId) :
    (tree.map f g).continueWith id target = (tree.continueWith id target).map (map f g) := by
  unfold continueWith
  rw [node?_map]
  cases tree.node? id with
  | none => rfl
  | some node =>
    cases node with
    | linear statements next =>
      cases next with
      | none => exact congrArg Except.ok (map_replace tree id (.linear statements (some target)))
      | some next => rfl
    | conditional test consequent alternate => rfl

end StatementTree

/-! ## Explorations with the input blanked out -/

/-- A state with the input blanked out. -/
def State.blank (s : State) : State := { s with path := s.path.blank }

/-- A diagnostic without the expression that caused it. -/
def Diagnostic.blank (d : Diagnostic) : Diagnostic := { d with error := d.error.blank }

/-- An event without the expression that caused it. -/
def Event.blank : Event → Event
  | diagnosed diagnostic => diagnosed diagnostic.blank
  | event => event

/-- A failure without the expression that caused it. -/
def ExecutionError.blank : ExecutionError → ExecutionError
  | fault cause => fault cause.blank
  | error => error

/-- A tree of the same shape, with the input blanked out in statements and tests. -/
def StatementTree.blank (tree : StatementTree Statement Comparison) :
    StatementTree Statement Comparison :=
  tree.map Statement.blank Comparison.blank

theorem StatementTree.blank_appendAll (tree : StatementTree Statement Comparison) (id : NodeId)
    (statements : List Statement) :
    tree.blank.appendAll id (statements.map Statement.blank) =
      (tree.appendAll id statements).map blank :=
  map_appendAll tree id statements

namespace Explorer

/-- An exploration with the input blanked out. -/
def blank (e : Explorer) : Explorer :=
  { e with
    input := ⟨0, ""⟩
    tree := e.tree.blank
    active := e.active.map State.blank
    finished := e.finished.map State.blank
    diagnostics := e.diagnostics.map Diagnostic.blank
    events := e.events.map Event.blank }

/-- A turn with the input blanked out. -/
def Turn.blank (turn : Turn) : Turn :=
  ⟨turn.explorer.blank, turn.survivors.map State.blank, turn.spawned.map State.blank⟩

variable {e e' : Explorer} {s s' : State}

theorem blank_record (e : Explorer) (d : Diagnostic) :
    (e.record d).blank = e.blank.record d.blank := by
  simp [record, blank, Event.blank]

theorem blank_finish (e : Explorer) (s : State) : (e.finish s).blank = e.blank.finish s.blank := by
  simp [finish, blank, Event.blank, State.blank]

theorem blank_truncate (e : Explorer) (s : State) :
    e.blank.truncate s.blank = (e.truncate s).map blank := by
  have happend := StatementTree.map_append (f := Statement.blank) (g := Comparison.blank) e.tree
    s.node PathError.budgetExhausted.placeholder
  simp only [truncate]
  change ((e.tree.map Statement.blank Comparison.blank).append s.node
    (Statement.blank PathError.budgetExhausted.placeholder) >>= _) = _
  rw [happend]
  cases e.tree.append s.node PathError.budgetExhausted.placeholder with
  | error error => rfl
  | ok tree =>
    simp [Except.map, blank, record, Event.blank, State.blank, Diagnostic.blank, PathError.blank,
      StatementTree.blank, Path.blank, bind, Except.bind, pure, Except.pure]

theorem blank_fork (e : Explorer) (s : State) (test : Comparison) (target : Nat) :
    e.blank.fork s.blank test.blank target =
      (e.fork s test target).map (Prod.map blank (List.map State.blank)) := by
  have htree : e.blank.tree = e.tree.map Statement.blank Comparison.blank := rfl
  simp only [fork, htree, StatementTree.map_addLinear, StatementTree.map_addConditional,
    StatementTree.map_continueWith]
  change (Except.map _ (StatementTree.continueWith _ s.node _) >>= _) = _
  cases StatementTree.continueWith _ s.node _ with
  | error error => rfl
  | ok tree =>
    simp [Except.map, blank, Event.blank, State.blank, StatementTree.blank, Path.blank, bind,
      Except.bind, pure, Except.pure]

/-! ## Turns -/

/-- A failure in the tree leaves nothing to blank out. -/
theorem mapBoth_tree {α β : Type} (g : α → β) (x : Except TreeError α) :
    mapBoth ExecutionError.blank g (x.mapError .tree) = (x.map g).mapError .tree := by
  cases x <;> rfl

theorem blank_turn {survivors survivors' spawned spawned' : List State} (h : e.blank = e'.blank)
    (hsurvivors : survivors.map State.blank = survivors'.map State.blank)
    (hspawned : spawned.map State.blank = spawned'.map State.blank) :
    mapBoth ExecutionError.blank Turn.blank (.ok ⟨e, survivors, spawned⟩) =
      mapBoth ExecutionError.blank Turn.blank (.ok ⟨e', survivors', spawned'⟩) := by
  simp only [mapBoth, Turn.blank, h, hsurvivors, hspawned]

theorem blank_advance (h : e.blank = e'.blank) (hs : s.blank = s'.blank) :
    mapBoth ExecutionError.blank Turn.blank (e.advance s) =
      mapBoth ExecutionError.blank Turn.blank (e'.advance s') := by
  have hprogram : e.program = e'.program := (congrArg program h :)
  have htree : e.tree.blank = e'.tree.blank := (congrArg tree h :)
  have hnode : s.node = s'.node := (congrArg State.node hs :)
  have hpath : s.path.blank = s'.path.blank := (congrArg State.path hs :)
  unfold advance
  refine mapBoth_bind (g := Step.blank) ?_ fun step step' hstep => ?_
  · rw [hprogram]
    exact mapBoth_mapError _ (Path.blank_step hpath e.input e'.input) fun _ _ hab =>
      congrArg ExecutionError.fault hab
  obtain ⟨emitted, path, outcome⟩ := step
  obtain ⟨emitted', path', outcome'⟩ := step'
  obtain ⟨hemitted, hpath, houtcome⟩ := Step.mk.inj hstep
  refine mapBoth_bind (g := StatementTree.blank) ?_ fun tree tree' htree => ?_
  · rw [mapBoth_tree, mapBoth_tree, ← StatementTree.blank_appendAll,
      ← StatementTree.blank_appendAll, htree, hnode, hemitted]
  have hafter : blank { e with tree, steps := e.steps + 1 } =
      blank { e' with tree := tree', steps := e'.steps + 1 } := by
    change { e.blank with tree := tree.blank, steps := e.blank.steps + 1 } =
      { e'.blank with tree := tree'.blank, steps := e'.blank.steps + 1 }
    rw [h, htree]
  have hmoved : State.blank { s with path } = State.blank { s' with path := path' } := by
    change { s.blank with path := path.blank } = { s'.blank with path := path'.blank }
    rw [hs, hpath]
  have hended (status : Status) : State.blank { s with path, status } =
      State.blank { s' with path := path', status } :=
    (congrArg (fun t : State => { t with status }) hmoved :)
  have hid : s.id = s'.id := (congrArg State.id hs :)
  have haddress : path.address = path'.address := (congrArg Path.address hpath :)
  -- both steps end in the same way, which leaves four of the sixteen cases
  cases outcome <;> cases outcome' <;>
    simp only [Outcome.blank, reduceCtorEq, Outcome.stopped.injEq, Outcome.forked.injEq] at houtcome
  case running.running => exact blank_turn hafter (by simpa using hmoved) rfl
  case returned.returned =>
    refine blank_turn ?_ rfl rfl
    rw [blank_finish, blank_finish, hafter, hended]
  case stopped.stopped error error' =>
    refine blank_turn ?_ rfl rfl
    rw [blank_finish, blank_finish, blank_record, blank_record, hafter, hended]
    simp only [Diagnostic.blank, hid, haddress, houtcome]
  case forked.forked test target test' target' =>
    refine mapBoth_bind (g := Prod.map blank (List.map State.blank)) ?_
      fun split split' hsplit => ?_
    · rw [mapBoth_tree, mapBoth_tree, ← blank_fork, ← blank_fork, hafter, hmoved, houtcome.1,
        houtcome.2]
    · obtain ⟨e₁, spawned⟩ := split
      obtain ⟨e₁', spawned'⟩ := split'
      obtain ⟨hsplit, hspawned⟩ := Prod.mk.inj hsplit
      refine blank_turn ?_ rfl hspawned
      rw [blank_finish, blank_finish, hsplit, hended]

theorem blank_visit (h : e.blank = e'.blank) (hs : s.blank = s'.blank) :
    mapBoth ExecutionError.blank Turn.blank (e.visit s) =
      mapBoth ExecutionError.blank Turn.blank (e'.visit s') := by
  have hexhausted : e.exhausted = e'.exhausted := (congrArg exhausted h :)
  unfold visit
  rw [hexhausted]
  cases e'.exhausted with
  | false => exact blank_advance h hs
  | true =>
    refine mapBoth_bind (g := blank) ?_ fun _ _ hcut => blank_turn hcut rfl rfl
    rw [mapBoth_tree, mapBoth_tree, ← blank_truncate, ← blank_truncate, h, hs]

/-! ## Rounds -/

theorem blank_sweep {survivors survivors' spawned spawned' : Array State}
    {waiting waiting' : List State} (h : e.blank = e'.blank)
    (hsurvivors : survivors.toList.map State.blank = survivors'.toList.map State.blank)
    (hspawned : spawned.toList.map State.blank = spawned'.toList.map State.blank)
    (hwaiting : waiting.map State.blank = waiting'.map State.blank) :
    Prod.map blank (mapBoth ExecutionError.blank (List.map State.blank))
        (e.sweep survivors spawned waiting) =
      Prod.map blank (mapBoth ExecutionError.blank (List.map State.blank))
        (e'.sweep survivors' spawned' waiting') := by
  -- the two lists have the same length, so the induction goes down both at once
  induction waiting generalizing e e' survivors survivors' spawned spawned' waiting' with
  | nil =>
    obtain rfl : waiting' = [] := List.map_eq_nil_iff.mp hwaiting.symm
    simp only [sweep, Prod.map, mapBoth, List.map_append, h, hsurvivors, hspawned]
  | cons s rest ih =>
    cases waiting' with
    | nil => cases hwaiting
    | cons s' rest' =>
      obtain ⟨hs, hrest⟩ := List.cons.inj hwaiting
      have hvisit := blank_visit h hs
      simp only [sweep]
      cases hv : e.visit s with
      | error error =>
        cases hv' : e'.visit s' with
        | error error' =>
          rw [hv, hv'] at hvisit
          exact congrArg₂ Prod.mk h (congrArg Except.error (Except.error.inj hvisit))
        | ok turn' =>
          rw [hv, hv'] at hvisit
          cases hvisit
      | ok turn =>
        cases hv' : e'.visit s' with
        | error error' =>
          rw [hv, hv'] at hvisit
          cases hvisit
        | ok turn' =>
          rw [hv, hv'] at hvisit
          obtain ⟨he, hkept, hnew⟩ := Turn.mk.inj (Except.ok.inj hvisit)
          refine ih he ?_ ?_ hrest
          · simp only [Array.toList_appendList, List.map_append, hsurvivors, hkept]
          · simp only [Array.toList_appendList, List.map_append, hspawned, hnew]

theorem blank_truncateAll (e : Explorer) (live : List State) :
    e.blank.truncateAll (live.map State.blank) = Prod.map blank id (e.truncateAll live) := by
  induction live generalizing e with
  | nil => rfl
  | cons s rest ih =>
    simp only [List.map_cons, truncateAll, blank_truncate]
    cases e.truncate s with
    | error error => rfl
    | ok cut => exact ih cut

/-- The end of a round, after the turns: the states that are alive go on, or they are cut off. -/
def close (e : Explorer) (remaining : List State) : Explorer × Except ExecutionError Bool :=
  if e.exhausted then
    match e.truncateAll remaining with
    | (e, .error error) => (e, .error (.tree error))
    | (e, .ok ()) => (e, .ok false)
  else ({ e with active := remaining }, .ok !remaining.isEmpty)

theorem round_eq_close (e : Explorer) :
    e.round = match sweep { e with active := [] } #[] #[] e.active with
      | (e, .error error) => (e, .error error)
      | (e, .ok remaining) => e.close remaining :=
  rfl

theorem blank_close (h : e.blank = e'.blank) {remaining remaining' : List State}
    (hremaining : remaining.map State.blank = remaining'.map State.blank) :
    Prod.map blank (mapBoth ExecutionError.blank id) (e.close remaining) =
      Prod.map blank (mapBoth ExecutionError.blank id) (e'.close remaining') := by
  have hexhausted : e.exhausted = e'.exhausted := (congrArg exhausted h :)
  have hcut : Prod.map blank id (e.truncateAll remaining) =
      Prod.map blank id (e'.truncateAll remaining') := by
    rw [← blank_truncateAll, ← blank_truncateAll, h, hremaining]
  unfold close
  rw [hexhausted]
  cases e'.exhausted with
  | false =>
    have hempty : remaining.isEmpty = remaining'.isEmpty := by
      simpa only [List.isEmpty_map] using congrArg List.isEmpty hremaining
    have hleft : blank { e with active := remaining } = blank { e' with active := remaining' } := by
      change { e.blank with active := remaining.map State.blank } =
        { e'.blank with active := remaining'.map State.blank }
      rw [h, hremaining]
    exact congrArg₂ Prod.mk hleft (congrArg (fun b => Except.ok !b) hempty)
  | true =>
    generalize e.truncateAll remaining = left at hcut
    generalize e'.truncateAll remaining' = right at hcut
    obtain ⟨e₁, result⟩ := left
    obtain ⟨e₁', result'⟩ := right
    obtain ⟨he, hresult⟩ := Prod.mk.inj hcut
    obtain rfl : result = result' := hresult
    cases result with
    | error error => exact congrArg₂ Prod.mk he rfl
    | ok _ => exact congrArg₂ Prod.mk he rfl

/-- **Rounds of explorations that are the same up to blanks** end alike. -/
theorem blank_round (h : e.blank = e'.blank) :
    Prod.map blank (mapBoth ExecutionError.blank id) e.round =
      Prod.map blank (mapBoth ExecutionError.blank id) e'.round := by
  have hactive : e.active.map State.blank = e'.active.map State.blank := (congrArg active h :)
  have hstart : blank { e with active := [] } = blank { e' with active := [] } :=
    (congrArg (fun e : Explorer => { e with active := [] }) h :)
  have hsweep : Prod.map blank (mapBoth ExecutionError.blank (List.map State.blank))
        (sweep { e with active := [] } #[] #[] e.active) =
      Prod.map blank (mapBoth ExecutionError.blank (List.map State.blank))
        (sweep { e' with active := [] } #[] #[] e'.active) :=
    blank_sweep hstart rfl rfl hactive
  rw [round_eq_close, round_eq_close]
  generalize sweep { e with active := [] } #[] #[] e.active = left at hsweep
  generalize sweep { e' with active := [] } #[] #[] e'.active = right at hsweep
  obtain ⟨e₁, result⟩ := left
  obtain ⟨e₁', result'⟩ := right
  obtain ⟨he, hresult⟩ := Prod.mk.inj hsweep
  cases result with
  | error error =>
    cases result' with
    | error error' => exact congrArg₂ Prod.mk he (congrArg Except.error (Except.error.inj hresult))
    | ok remaining' => cases hresult
  | ok remaining =>
    cases result' with
    | error error' => cases hresult
    | ok remaining' => exact blank_close he (Except.ok.inj hresult)

theorem blank_initial (program : Program) (input input' : Input) (budget : Option Nat) :
    (initial program input budget).blank = (initial program input' budget).blank :=
  rfl

theorem blank_afterRounds (h : e.blank = e'.blank) (n : Nat) :
    (e.afterRounds n).blank = (e'.afterRounds n).blank := by
  induction n with
  | zero => exact h
  | succ n ih => exact (congrArg Prod.fst (blank_round ih) :)

end Explorer

/-! ## Lockstep -/

/-- Two states in the same place of their life, with the same knowledge: a register holds the same
known text in both, or neither knows its text. -/
structure State.Twin (s s' : State) : Prop where
  id : s.id = s'.id
  parent : s.parent = s'.parent
  status : s.status = s'.status
  node : s.node = s'.node
  position : s.path.position = s'.path.position
  address : s.path.address = s'.path.address
  reads : s.path.reads = s'.path.reads
  registers : ∀ r, (∃ text, s.path.registers.get r = .concrete text ∧
      s'.path.registers.get r = .concrete text) ∨
    ∃ x y, s.path.registers.get r = .symbolic x ∧ s'.path.registers.get r = .symbolic y

theorem State.twin_of_blank {s s' : State} (h : s.blank = s'.blank) : s.Twin s' := by
  obtain ⟨hposition, haddress, hregisters, hreads⟩ :=
    Path.blank_eq_blank_iff.mp (congrArg State.path h :)
  refine ⟨(congrArg State.id h :), (congrArg State.parent h :), (congrArg State.status h :),
    (congrArg State.node h :), hposition, haddress, hreads, fun r => ?_⟩
  exact Value.blank_eq_blank_iff.mp (RegisterFile.blank_get hregisters r)

namespace Explorer

/-- Two explorations in lockstep: the same states in the same places, a tree of the same shape, and
the same diagnostics but for the expressions in them. -/
structure Lockstep (e e' : Explorer) : Prop where
  active : List.Forall₂ State.Twin e.active e'.active
  finished : List.Forall₂ State.Twin e.finished.toList e'.finished.toList
  nextId : e.nextId = e'.nextId
  root : e.root = e'.root
  tree : e.tree.blank = e'.tree.blank
  steps : e.steps = e'.steps
  truncated : e.truncated = e'.truncated
  diagnostics : e.diagnostics.map Diagnostic.blank = e'.diagnostics.map Diagnostic.blank
  events : e.events.map Event.blank = e'.events.map Event.blank

theorem forall₂_twin {l l' : List State} (h : l.map State.blank = l'.map State.blank) :
    List.Forall₂ State.Twin l l' := by
  have hblank : List.Forall₂ Eq (l.map State.blank) (l'.map State.blank) := by
    rw [List.forall₂_eq_eq_eq, h]
  rw [List.forall₂_map_left_iff, List.forall₂_map_right_iff] at hblank
  exact hblank.imp fun _ _ => State.twin_of_blank

theorem lockstep_of_blank {e e' : Explorer} (h : e.blank = e'.blank) : Lockstep e e' where
  active := forall₂_twin (congrArg active h :)
  finished := forall₂_twin (by simpa [blank] using congrArg (fun e => e.finished.toList) h)
  nextId := (congrArg nextId h :)
  root := (congrArg root h :)
  tree := (congrArg tree h :)
  steps := (congrArg steps h :)
  truncated := (congrArg truncated h :)
  diagnostics := (congrArg diagnostics h :)
  events := (congrArg events h :)

/-- **Explorations go on in lockstep whatever their inputs are.** After any number of rounds the
next round ends alike too: with states to go on or without, or with the same fault at the same
address. -/
theorem lockstep_of_rounds (program : Program) (budget : Option Nat) (input input' : Input)
    (n : Nat) :
    let e := (initial program input budget).afterRounds n
    let e' := (initial program input' budget).afterRounds n
    Lockstep e e' ∧
      mapBoth ExecutionError.blank id e.round.2 = mapBoth ExecutionError.blank id e'.round.2 := by
  intro e e'
  have h : e.blank = e'.blank := blank_afterRounds (blank_initial program input input' budget) n
  exact ⟨lockstep_of_blank h, (congrArg Prod.snd (blank_round h) :)⟩

end Explorer

end Lifter
