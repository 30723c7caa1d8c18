import Lifter.Explorer.Round
import Lifter.Proofs.Growth

/-!
# What a turn does

A turn can fail in the statement tree only if the state's node is no open linear node. Where it is
one, a turn is the plain function `settle` of the instruction's result, and its effect on the
growth of the tree is to replace one tip.

* `Explorer.settle`, `Explorer.cutOff`: a turn that runs an instruction, and one that ends a state
  because no step is left; `Explorer.advance_eq`, `Explorer.truncate_eq` say that this is what
  happens.
* `Explorer.Grown`: an exploration, the states of it that are alive, and the growth of its tree.
* **`Explorer.Grown.settle`**, **`Explorer.Grown.cutOff`**: a turn keeps them together.
* `Explorer.node?_settle_of_ne`: other nodes are as they were.
-/

namespace Lifter.Explorer

variable {e : Explorer} {s : State} {statements : Array Statement}

/-! ## Turns in an open node -/

/-- The two states that a state is split into. -/
def children (e : Explorer) (s : State) (path : Path) (target : Nat) : List State :=
  [{ id := ⟨e.nextId⟩, parent := s.id, status := .active, node := ⟨e.tree.size⟩
     path := { path with position := target } },
   { id := ⟨e.nextId + 1⟩, parent := s.id, status := .active, node := ⟨e.tree.size + 1⟩
     path := path }]

/-- The turn of a state after an instruction, where its node held `statements`. -/
def settle (e : Explorer) (s : State) (statements : Array Statement) (step : Step) : Turn :=
  let statements := statements ++ step.emitted.toArray
  let after : Explorer :=
    { e with tree := e.tree.replace s.node (.linear statements none), steps := e.steps + 1 }
  let ended (status : Status) : State := { s with path := step.path, status }
  match step.outcome with
  | .running => ⟨after, [{ s with path := step.path }], []⟩
  | .returned => ⟨after.finish (ended .terminated), [], []⟩
  | .stopped error =>
    ⟨(after.record ⟨s.id, step.path.address, error⟩).finish (ended .errored), [], []⟩
  | .forked test target =>
    let split : Explorer :=
      { after with
        tree := e.tree.graft s.node statements test
        nextId := e.nextId + 2
        events := e.events.push (.forked s.id step.path.address ⟨e.nextId⟩ ⟨e.nextId + 1⟩) }
    ⟨split.finish (ended .terminated), [], e.children s step.path target⟩

/-- A state cut off, where its node held `statements`. -/
def cutOff (e : Explorer) (s : State) (statements : Array Statement) : Explorer :=
  let node := .linear (statements.push PathError.budgetExhausted.placeholder) none
  let after := { e with tree := e.tree.replace s.node node, truncated := true }.record
    ⟨s.id, s.path.address, .budgetExhausted⟩
  { after with finished := after.finished.push { s with status := .errored } }

theorem truncate_eq (h : e.tree.node? s.node = some (.linear statements none)) :
    e.truncate s = .ok (e.cutOff s statements) := by
  simp only [truncate, StatementTree.append_eq h]
  rfl

theorem fork_eq (h : e.tree.node? s.node = some (.linear statements none)) (test : Comparison)
    (target : Nat) :
    e.fork s test target = .ok ({ e with
      tree := e.tree.graft s.node statements test
      nextId := e.nextId + 2
      events := e.events.push (.forked s.id s.path.address ⟨e.nextId⟩ ⟨e.nextId + 1⟩) },
      e.children s s.path target) := by
  have hlt := StatementTree.index_lt_of_node? h
  have h₁ : e.tree.addLinear = (⟨e.tree.size⟩, e.tree.addLinear.2) := rfl
  have h₂ : e.tree.addLinear.2.addLinear =
      (⟨e.tree.size + 1⟩, e.tree.addLinear.2.addLinear.2) :=
    Prod.ext (by simp [StatementTree.addLinear, StatementTree.add, StatementTree.size]) rfl
  have h₃ : e.tree.addLinear.2.addLinear.2.addConditional test ⟨e.tree.size⟩ ⟨e.tree.size + 1⟩ =
      (⟨e.tree.size + 2⟩, (e.tree.addLinear.2.addLinear.2.addConditional test ⟨e.tree.size⟩
        ⟨e.tree.size + 1⟩).2) :=
    Prod.ext (by simp [StatementTree.addConditional, StatementTree.addLinear, StatementTree.add,
      StatementTree.size]) rfl
  have hnode : (e.tree.addLinear.2.addLinear.2.addConditional test ⟨e.tree.size⟩
      ⟨e.tree.size + 1⟩).2.node? s.node = some (.linear statements none) := by
    rw [StatementTree.addConditional, StatementTree.node?_add_of_lt, StatementTree.addLinear,
      StatementTree.node?_add_of_lt, StatementTree.addLinear, StatementTree.node?_add_of_lt hlt, h]
    all_goals simp only [StatementTree.addLinear, StatementTree.size_add]; omega
  simp only [fork]
  rw [h₁, h₂, h₃]
  simp only [StatementTree.continueWith_eq hnode]
  rfl

/-- **A turn in an open node** fails only by the instruction itself. -/
theorem advance_eq (h : e.tree.node? s.node = some (.linear statements none)) :
    e.advance s = match s.path.step e.program e.input with
      | .error fault => .error (.fault fault)
      | .ok step => .ok (e.settle s statements step) := by
  have hlt := StatementTree.index_lt_of_node? h
  cases hstep : s.path.step e.program e.input with
  | error fault => simp only [advance, hstep]; rfl
  | ok step =>
    obtain ⟨emitted, path, outcome⟩ := step
    simp only [advance, hstep, StatementTree.appendAll_eq h]
    cases outcome with
    | running => rfl
    | returned => rfl
    | stopped error => rfl
    | forked test target =>
      let after : Explorer := { e with
        tree := e.tree.replace s.node (.linear (statements ++ emitted.toArray) none)
        steps := e.steps + 1 }
      have hnode : after.tree.node? s.node =
          some (.linear (statements ++ emitted.toArray) none) :=
        StatementTree.node?_replace_self hlt
      have hfork := fork_eq (s := { s with path }) hnode test target
      change ((after.fork { s with path } test target).mapError ExecutionError.tree >>= _) = _
      rw [hfork]
      simp only [settle, children, after, StatementTree.graft_replace hlt,
        StatementTree.size_replace]
      rfl

/-! ## The growth of an exploration -/

/-- The tree of an exploration has the growth `g`. The states in `live` are at tips of their own,
and no two states share a node, whether they are alive or have come to an end. -/
structure Grown (g : Growth Statement Comparison) (e : Explorer) (live : List State) : Prop where
  spans : g.Spans e.tree e.root
  tips : ∀ t ∈ live, t.node ∈ g.tips
  ended : ∀ t ∈ e.finished.toList, t.node ∈ g.ids
  nodup : ((live ++ e.finished.toList).map State.node).Nodup

namespace Grown

variable {g new : Growth Statement Comparison} {live live' rest : List State}

theorem open_node (h : Grown g e live) (hs : s ∈ live) :
    ∃ statements, e.tree.node? s.node = some (.linear statements none) :=
  h.spans.held.tip_node (h.tips s hs)

theorem node_not_mem (h : Grown g e (s :: rest)) :
    s.node ∉ (rest ++ e.finished.toList).map State.node :=
  (List.nodup_cons.mp h.nodup).1

theorem node_ne (h : Grown g e (s :: rest)) {t : State} (ht : t ∈ rest) : t.node ≠ s.node :=
  fun he => h.node_not_mem (he ▸ List.mem_map_of_mem (List.mem_append_left _ ht))

theorem perm (h : Grown g e live) (hp : live.Perm live') : Grown g e live' where
  spans := h.spans
  tips t ht := h.tips t (hp.mem_iff.mpr ht)
  ended := h.ended
  nodup := ((hp.append_right _).map _).nodup_iff.mp h.nodup

theorem sublist (h : Grown g e live) (hs : live'.Sublist live) : Grown g e live' where
  spans := h.spans
  tips t ht := h.tips t (hs.subset ht)
  ended := h.ended
  nodup := h.nodup.sublist ((hs.append_right _).map _)

/-- What a turn of `s` has to show: `new` takes the place of its tip, the states `kept` go on in
tips of `new`, and the states `gone` have come to an end in the node of `s`. -/
theorem turn (h : Grown g e (s :: rest)) {e' : Explorer} (kept gone : List State)
    (hspans : (g.amend s.node new).Spans e'.tree e'.root) (hsize : e.tree.size ≤ e'.tree.size)
    (hfinished : e'.finished.toList = e.finished.toList ++ gone)
    (hkept : ∀ t ∈ kept, t.node ∈ new.tips) (hgone : ∀ t ∈ gone, t.node = s.node)
    (hnodup : ((kept ++ gone).map State.node).Nodup)
    (hfresh : ∀ t ∈ kept, t.node = s.node ∨ t.node ∉ g.ids) :
    Grown (g.amend s.node new) e' (kept ++ rest) := by
  have hs : s.node ∈ g.tips := h.tips s List.mem_cons_self
  have hmem : ∀ {i : NodeId}, i ∈ g.ids → i ∈ (g.amend s.node new).ids := fun hi =>
    hspans.mem_ids.mpr (Nat.lt_of_lt_of_le (h.spans.mem_ids.mp hi) hsize)
  refine ⟨hspans, fun t ht => ?_, fun t ht => ?_, ?_⟩
  · rw [Growth.mem_tips_amend hs]
    rcases List.mem_append.mp ht with ht | ht
    · exact Or.inr (hkept t ht)
    · exact Or.inl ⟨h.tips t (List.mem_cons_of_mem _ ht), h.node_ne ht⟩
  · rw [hfinished, List.mem_append] at ht
    rcases ht with ht | ht
    · exact hmem (h.ended t ht)
    · rw [hgone t ht]
      exact hmem (Growth.mem_ids_of_mem_tips hs)
  · have hperm : ((kept ++ rest) ++ e'.finished.toList).Perm
        ((kept ++ gone) ++ (rest ++ e.finished.toList)) := by
      rw [hfinished, List.append_assoc, List.append_assoc]
      refine List.Perm.append_left kept ?_
      rw [← List.append_assoc]
      exact List.perm_append_comm
    rw [(hperm.map _).nodup_iff, List.map_append, List.nodup_append]
    refine ⟨hnodup, (List.nodup_cons.mp h.nodup).2, ?_⟩
    -- the nodes of the turn are that of `s` and new ones, all others were there before
    intro i hi j hj
    obtain ⟨t, ht, rfl⟩ := List.mem_map.mp hi
    have hjids : j ∈ g.ids := by
      obtain ⟨u, hu, rfl⟩ := List.mem_map.mp hj
      rcases List.mem_append.mp hu with hu | hu
      · exact Growth.mem_ids_of_mem_tips (h.tips u (List.mem_cons_of_mem _ hu))
      · exact h.ended u hu
    have hts : t.node = s.node ∨ t.node ∉ g.ids := by
      rcases List.mem_append.mp ht with ht | ht
      · exact hfresh t ht
      · exact Or.inl (hgone t ht)
    rintro rfl
    rcases hts with hts | hts
    · exact h.node_not_mem (hts ▸ hj)
    · exact hts hjids

end Grown

/-- What takes the place of the tip of a state in its turn. -/
def sprout (e : Explorer) (s : State) (statements : Array Statement) (step : Step) :
    Growth Statement Comparison :=
  let statements := statements ++ step.emitted.toArray
  match step.outcome with
  | .forked test _ => .split s.node statements test e.tree.size
  | _ => .tip s.node statements

namespace Grown

variable {g : Growth Statement Comparison} {rest : List State}

/-- **An instruction keeps the growth.** -/
theorem settle (h : Grown g e (s :: rest)) (statements : Array Statement) (step : Step) :
    Grown (g.amend s.node (e.sprout s statements step)) (e.settle s statements step).explorer
      ((e.settle s statements step).survivors ++ (e.settle s statements step).spawned ++ rest) := by
  have hs : s.node ∈ g.tips := h.tips s List.mem_cons_self
  obtain ⟨emitted, path, outcome⟩ := step
  cases outcome with
  | running =>
    refine h.turn [{ s with path }] [] (h.spans.extend hs _) ?_ ?_ ?_ ?_ ?_ ?_
    all_goals simp [Explorer.settle, sprout, Growth.tips]
  | returned =>
    refine h.turn [] [_] (h.spans.extend hs _) ?_ (Array.toList_push ..) ?_ ?_ ?_ ?_
    all_goals simp [Explorer.settle, finish]
  | stopped error =>
    refine h.turn [] [_] (h.spans.extend hs _) ?_ (Array.toList_push ..) ?_ ?_ ?_ ?_
    all_goals simp [Explorer.settle, finish, record]
  | forked test target =>
    have hlt := h.spans.index_lt_of_mem_tips hs
    have hc := h.spans.not_mem_ids (Nat.le_refl e.tree.size)
    have ha := h.spans.not_mem_ids (Nat.le_succ e.tree.size)
    have hcs := StatementTree.ne_of_size_le hlt (Nat.le_refl e.tree.size)
    have has := StatementTree.ne_of_size_le hlt (Nat.le_succ e.tree.size)
    refine h.turn (e.children s path target) [_] (h.spans.graft hs _ test) ?_
      (Array.toList_push ..) ?_ ?_ ?_ ?_
    all_goals simp [Explorer.settle, sprout, finish, children, Growth.split, Growth.tips, hc, ha,
      hcs, has]

/-- **Cutting off a state keeps the growth.** -/
theorem cutOff (h : Grown g e (s :: rest)) (statements : Array Statement) :
    Grown (g.amend s.node (.tip s.node (statements.push PathError.budgetExhausted.placeholder)))
      (e.cutOff s statements) rest := by
  have hs : s.node ∈ g.tips := h.tips s List.mem_cons_self
  refine h.turn [] [_] (h.spans.extend hs _) ?_ (Array.toList_push ..) ?_ ?_ ?_ ?_
  all_goals simp [Explorer.cutOff, record]

/-- The nodes of other states are elsewhere. -/
theorem elsewhere (h : Grown g e (s :: rest)) {t : State} (ht : t ∈ rest ++ e.finished.toList) :
    t.node ≠ s.node ∧ t.node.index < e.tree.size := by
  refine ⟨fun he => h.node_not_mem (he ▸ List.mem_map_of_mem ht), h.spans.mem_ids.mp ?_⟩
  rcases List.mem_append.mp ht with ht | ht
  · exact Growth.mem_ids_of_mem_tips (h.tips t (List.mem_cons_of_mem _ ht))
  · exact h.ended t ht

end Grown

/-! ## Nodes elsewhere -/

variable {i : NodeId} {step : Step}

theorem node?_settle_of_ne (hlt : i.index < e.tree.size) (hne : i ≠ s.node) :
    (e.settle s statements step).explorer.tree.node? i = e.tree.node? i := by
  obtain ⟨emitted, path, outcome⟩ := step
  cases outcome with
  | forked test target => exact StatementTree.node?_graft_of_lt hlt hne
  | _ => exact StatementTree.node?_replace_of_ne hne

end Lifter.Explorer
