import Lifter.Proofs.Round

/-!
# Exploration as recursion

Exploration runs all paths side by side and writes them into one tree. What it writes can be said
without any of that: run one path alone until it ends or splits, and where it splits do the same for
both sides. This is a recursion that may not end, so it is cut at a depth.

* `Outline`, `outline`: the tree of a path by recursion, as far as a depth; `Outline.Closed` where
  the depth was enough, `Outline.Faultless` where every instruction could be run.
* `Path.outline_eq_of_closed`: a greater depth changes nothing once it is enough.
* `Explorer.complete_iff_whole`: exploration is complete after `n` rounds if and only if depth `n` is
  enough for every active state and no fault is met.
* `Explorer.invariant_promises`: what has been written together with what is still to come never
  changes.
* **`Explorer.explore_eq_recursion`**: exploration is that recursion.
-/

namespace Lifter

/-! ## Outlines -/

/-- The tree of a path. -/
inductive Outline where
  /-- Not followed any further. -/
  | unknown
  /-- The next instruction cannot be run. -/
  | fault (cause : Fault)
  /-- The path has come to its end. -/
  | done
  /-- Statements, and what comes after them. -/
  | emit (statements : List Statement) (rest : Outline)
  | branch (test : Comparison) (consequent alternate : Outline)

namespace Outline

/-- Everything has been followed to its end. -/
def Closed : Outline → Prop
  | unknown => False
  | fault _ | done => True
  | emit _ rest => rest.Closed
  | branch _ consequent alternate => consequent.Closed ∧ alternate.Closed

/-- No fault has been met. -/
def Faultless : Outline → Prop
  | fault _ => False
  | unknown | done => True
  | emit _ rest => rest.Faultless
  | branch _ consequent alternate => consequent.Faultless ∧ alternate.Faultless

/-- The lines of a tree. -/
def lines : Outline → List String
  | unknown | fault _ | done => []
  | emit statements rest => statements.map Statement.text ++ rest.lines
  | branch test consequent alternate =>
    StatementTree.conditionalLines test.text consequent.lines alternate.lines

/-- Followed to its end without a fault. -/
def Whole (o : Outline) : Prop := o.Closed ∧ o.Faultless

@[simp] theorem whole_done : done.Whole := ⟨trivial, trivial⟩

@[simp] theorem not_whole_unknown : ¬ unknown.Whole := fun h => h.1

@[simp] theorem not_whole_fault (cause : Fault) : ¬ (fault cause).Whole := fun h => h.2

@[simp] theorem whole_emit (statements : List Statement) (rest : Outline) :
    (emit statements rest).Whole ↔ rest.Whole := Iff.rfl

@[simp] theorem whole_branch (test : Comparison) (consequent alternate : Outline) :
    (branch test consequent alternate).Whole ↔ consequent.Whole ∧ alternate.Whole := by
  simp only [Whole, Closed, Faultless]
  exact and_and_and_comm

end Outline

/-- The tree of the path that stands at a position with given registers and has read input `reads`
times, as far as `depth` instructions deep. Both sides of a branch go on with the registers and the
reads before it. -/
def outline (program : Program) (input : Input) :
    (depth position : Nat) → (registers : RegisterFile) → (reads : Nat) → Outline
  | 0, _, _, _ => .unknown
  | depth + 1, position, registers, reads =>
    match Path.step program input ⟨position, 0, registers, reads⟩ with
    | .error cause => .fault cause
    | .ok ⟨emitted, path, outcome⟩ =>
      .emit emitted <|
        match outcome with
        | .running => outline program input depth path.position path.registers path.reads
        | .returned | .stopped _ => .done
        | .forked test target =>
          .branch test (outline program input depth target path.registers path.reads)
            (outline program input depth path.position path.registers path.reads)

namespace Path

variable {program : Program} {input : Input} {path : Path} {step : Step} {depth depth' : Nat}

/-- The tree of a path. The address of the last instruction does not matter for it. -/
def outline (program : Program) (input : Input) (depth : Nat) (path : Path) : Outline :=
  Lifter.outline program input depth path.position path.registers path.reads

/-- What a path comes to after an instruction. -/
def continuation (program : Program) (input : Input) (depth : Nat) (step : Step) : Outline :=
  match step.outcome with
  | .running => step.path.outline program input depth
  | .returned | .stopped _ => .done
  | .forked test target =>
    .branch test (outline program input depth { step.path with position := target })
      (step.path.outline program input depth)

theorem outline_of_step (h : path.step program input = .ok step) :
    path.outline program input (depth + 1) =
      .emit step.emitted (continuation program input depth step) := by
  obtain ⟨position, address, registers, reads⟩ := path
  unfold outline Lifter.outline
  unfold Path.step at h ⊢
  cases hget : program.get? position with
  | none => simp only [hget] at h ⊢; cases h; rfl
  | some placed => simp only [hget] at h ⊢; rw [h]; rfl

theorem outline_of_fault {cause : Fault} (h : path.step program input = .error cause) :
    path.outline program input (depth + 1) = .fault cause := by
  obtain ⟨position, address, registers, reads⟩ := path
  unfold outline Lifter.outline
  unfold Path.step at h ⊢
  cases hget : program.get? position with
  | none => simp only [hget] at h; cases h
  | some placed => simp only [hget] at h ⊢; rw [h]

theorem outline_succ_of_closed (h : (path.outline program input depth).Closed) :
    path.outline program input (depth + 1) = path.outline program input depth := by
  induction depth generalizing path with
  | zero => exact absurd h id
  | succ depth ih =>
    cases hstep : path.step program input with
    | error cause => rw [outline_of_fault hstep, outline_of_fault hstep]
    | ok step =>
      rw [outline_of_step hstep] at h
      rw [outline_of_step hstep, outline_of_step hstep]
      obtain ⟨emitted, path', outcome⟩ := step
      cases outcome with
      | running => exact congrArg _ (ih h)
      | returned => rfl
      | stopped error => rfl
      | forked test target =>
        simp only [continuation]
        rw [ih h.1, ih h.2]

/-- **A greater depth changes nothing once it is enough.** -/
theorem outline_eq_of_closed (h : (path.outline program input depth).Closed)
    (hle : depth ≤ depth') : path.outline program input depth' = path.outline program input depth := by
  induction hle with
  | refl => rfl
  | step _ ih => rw [← ih, outline_succ_of_closed (ih ▸ h)]

theorem faultless_of_succ (h : (path.outline program input (depth + 1)).Faultless) :
    (path.outline program input depth).Faultless := by
  induction depth generalizing path with
  | zero => trivial
  | succ depth ih =>
    cases hstep : path.step program input with
    | error cause => rwa [outline_of_fault hstep] at h ⊢
    | ok step =>
      rw [outline_of_step hstep] at h ⊢
      obtain ⟨emitted, path', outcome⟩ := step
      cases outcome with
      | running => exact ih h
      | returned => trivial
      | stopped error => trivial
      | forked test target => exact ⟨ih h.1, ih h.2⟩

theorem faultless_of_le (h : (path.outline program input depth').Faultless) (hle : depth ≤ depth') :
    (path.outline program input depth).Faultless := by
  induction hle with
  | refl => exact h
  | step _ ih => exact ih (faultless_of_succ h)

/-- A tree is finite and without faults if and only if some depth shows it whole. -/
theorem exists_whole_iff :
    (∃ depth, (path.outline program input depth).Whole) ↔
      (∃ depth, (path.outline program input depth).Closed) ∧
        ∀ depth, (path.outline program input depth).Faultless := by
  constructor
  · rintro ⟨depth, hclosed, hfaultless⟩
    refine ⟨⟨depth, hclosed⟩, fun depth' => ?_⟩
    rcases Nat.le_total depth depth' with hle | hle
    · rw [outline_eq_of_closed hclosed hle]
      exact hfaultless
    · exact faultless_of_le hfaultless hle
  · rintro ⟨⟨depth, hclosed⟩, hfaultless⟩
    exact ⟨depth, hclosed, hfaultless depth⟩

/-- At a depth that is enough, a path and what it comes to are seen to the same depth. -/
theorem outline_of_step_of_closed (h : (path.outline program input depth).Closed)
    (hstep : path.step program input = .ok step) :
    path.outline program input depth = .emit step.emitted (continuation program input depth step) :=
  (outline_succ_of_closed h).symm.trans (outline_of_step hstep)

end Path

/-! ## Complete explorations -/

namespace Explorer

variable {program : Program} {input : Input} {e : Explorer} {s : State} {live : List State}

/-- An exploration of the given program and input without a budget. -/
def Free (program : Program) (input : Input) (_ : Growth Statement Comparison) (e : Explorer)
    (_ : List State) : Prop :=
  e.program = program ∧ e.input = input ∧ e.budget = none

theorem Free.of_sameSetting {g g' : Growth Statement Comparison} {e' : Explorer} {live' : List State}
    (h : Free program input g e live) (hsame : SameSetting e e') : Free program input g' e' live' :=
  ⟨hsame.program.trans h.1, hsame.input.trans h.2.1, hsame.budget.trans h.2.2⟩

theorem Free.not_exhausted {g : Growth Statement Comparison} (h : Free program input g e live) :
    e.exhausted = false := by
  simp [exhausted, h.2.2]

theorem invariant_free : Invariant (Free program input) where
  perm _ h := h
  active _ h := h
  settle _ _ _ _ h := h.of_sameSetting sameSetting_settle
  cutOff _ _ _ h := h.of_sameSetting sameSetting_cutOff

/-- A state is whole at depth `n + 1` if and only if it can have its turn and what that leaves is
whole at depth `n`. -/
theorem whole_iff_visit {rest : List State} (h : Holds (Free program input) e (s :: rest)) (n : Nat) :
    (s.path.outline program input (n + 1)).Whole ↔ ∃ turn, e.visit s = .ok turn ∧
      ∀ t ∈ turn.survivors ++ turn.spawned, (t.path.outline program input n).Whole := by
  obtain ⟨g, hg, hfree⟩ := h
  obtain ⟨statements, hnode⟩ := hg.open_node List.mem_cons_self
  have hx := hfree.not_exhausted
  cases hstep : s.path.step e.program e.input with
  | error cause =>
    rw [visit_of_fault hnode hx hstep]
    rw [hfree.1, hfree.2.1] at hstep
    simp [Path.outline_of_fault hstep]
  | ok step =>
    rw [visit_of_step hnode hx hstep]
    rw [hfree.1, hfree.2.1] at hstep
    obtain ⟨emitted, path, outcome⟩ := step
    cases outcome <;> simp [Path.outline_of_step hstep, Path.continuation, settle, children]

theorem whole_iff_sweep (n : Nat) (waiting : List State) {survivors spawned : Array State}
    (h : Holds (Free program input) e (waiting ++ (survivors.toList ++ spawned.toList))) :
    ((∀ t ∈ waiting, (t.path.outline program input (n + 1)).Whole) ∧
      ∀ t ∈ survivors.toList ++ spawned.toList, (t.path.outline program input n).Whole) ↔
    ∃ e' remaining, e.sweep survivors spawned waiting = (e', .ok remaining) ∧
      ∀ t ∈ remaining, (t.path.outline program input n).Whole := by
  induction waiting generalizing e survivors spawned with
  | nil => simp [sweep]
  | cons s rest ih =>
    rw [List.forall_mem_cons, whole_iff_visit h n]
    rcases invariant_free.visit h with ⟨turn, hvisit, hsame, g, hg, hfree⟩ | ⟨cause, hvisit, -⟩
    · have hturn : Holds (Free program input) turn.explorer (rest ++
          ((survivors ++ turn.survivors).toList ++ (spawned ++ turn.spawned).toList)) :=
        ⟨g, hg.perm (turn.perm_live rest survivors spawned), hfree⟩
      have hrest := ih hturn
      simp only [sweep, hvisit]
      rw [← hrest]
      simp only [Except.ok.injEq, exists_eq_left', Array.toList_appendList, List.forall_mem_append]
      grind
    · simp [sweep, hvisit]

/-- A round either succeeds, and takes every active state one instruction deeper, or meets a fault
in one of them. -/
theorem round_of_free (h : Holds (Free program input) e e.active) :
    (∃ e', e.round = (e', .ok !e'.active.isEmpty) ∧ Holds (Free program input) e' e'.active ∧
      ∀ n, (∀ t ∈ e.active, (t.path.outline program input (n + 1)).Whole) ↔
        ∀ t ∈ e'.active, (t.path.outline program input n).Whole) ∨
    ∃ e' cause, e.round = (e', .error (.fault cause)) ∧
      ∀ n, ¬ ∀ t ∈ e.active, (t.path.outline program input (n + 1)).Whole := by
  have hstart : Holds (Free program input) { e with active := [] }
      (e.active ++ (#[].toList ++ #[].toList)) := by
    simpa using h.active invariant_free []
  have hwhole : ∀ n, (∀ t ∈ e.active, (t.path.outline program input (n + 1)).Whole) ↔
      ∃ e' remaining, { e with active := [] }.sweep #[] #[] e.active = (e', .ok remaining) ∧
        ∀ t ∈ remaining, (t.path.outline program input n).Whole := fun n => by
    rw [← whole_iff_sweep n e.active hstart]
    simp
  rcases invariant_free.sweep e.active hstart with ⟨e', remaining, hs, -, hh⟩ |
    ⟨e', cause, rest, hs, -, -, -⟩
  · left
    have hx : e'.exhausted = false := by
      obtain ⟨g, -, hfree⟩ := hh
      exact hfree.not_exhausted
    refine ⟨{ e' with active := remaining }, by simp [round, hs, hx],
      hh.active invariant_free remaining, fun n => ?_⟩
    rw [hwhole n, hs]
    simp
  · right
    refine ⟨e', cause, by simp [round, hs], fun n => ?_⟩
    rw [hwhole n, hs]
    simp

/-- **Exploration is complete after `n` rounds if and only if depth `n` shows every active state
whole.** -/
theorem complete_iff_whole (n : Nat) (h : Holds (Free program input) e e.active)
    (hne : e.active ≠ []) :
    (∃ e', e.explore n = .complete e') ↔
      ∀ t ∈ e.active, (t.path.outline program input n).Whole := by
  induction n generalizing e with
  | zero =>
    obtain ⟨t, ht⟩ := List.exists_mem_of_ne_nil _ hne
    refine ⟨by rintro ⟨_, ⟨⟩⟩, fun hwhole => ?_⟩
    exact absurd (hwhole t ht) Outline.not_whole_unknown
  | succ n ih =>
    rcases round_of_free h with ⟨e', hround, hfree, hwhole⟩ | ⟨e', cause, hround, hwhole⟩
    · rw [hwhole n]
      by_cases hdone : e'.active = []
      · simp [explore, hround, hdone]
      · have hmore : (!e'.active.isEmpty) = true := by simp [hdone]
        rw [← ih hfree hdone]
        simp only [explore, hround, hmore]
    · simp only [explore, hround]
      exact ⟨by rintro ⟨_, ⟨⟩⟩, fun hw => absurd hw (hwhole n)⟩

/-! ## What is still to come -/

@[simp] theorem spelled_statement (s : Statement) : Spelled.text s = s.text := rfl

@[simp] theorem spelled_comparison (c : Comparison) : Spelled.text c = c.text := rfl

/-- The lines that a state will still write, seen as deep as `depth`. -/
def future (program : Program) (input : Input) (depth : Nat) (s : State) : List String :=
  (s.path.outline program input depth).lines

/-- Every state alive is whole at `depth`, and what has been written, together with what the states
alive will still write at their nodes, is `lines`. -/
def Promises (program : Program) (input : Input) (depth : Nat) (lines : List String)
    (g : Growth Statement Comparison) (e : Explorer) (live : List State) : Prop :=
  Free program input g e live ∧
    (∀ t ∈ live, (t.path.outline program input depth).Whole) ∧
    ∃ pending : NodeId → List String,
      (∀ t ∈ live, pending t.node = future program input depth t) ∧
      (∀ id, (∀ t ∈ live, t.node ≠ id) → pending id = []) ∧ g.linesWith pending = lines

/-- What is still to come after the turn of the state at `node`: that of the states `kept`, nothing
more at `node` itself, and elsewhere what was to come before. -/
def handOver (lines : State → List String) (kept : List State) (node : NodeId)
    (pending : NodeId → List String) (id : NodeId) : List String :=
  match kept.find? (·.node = id) with
  | some t => lines t
  | none => if id = node then [] else pending id

section HandOver

variable {lines : State → List String} {kept : List State} {node id : NodeId}
  {pending : NodeId → List String} {t : State}

theorem handOver_of_mem (hnodup : (kept.map State.node).Nodup) (ht : t ∈ kept) :
    handOver lines kept node pending t.node = lines t := by
  unfold handOver
  cases hfind : kept.find? (·.node = t.node) with
  | none => simpa using List.find?_eq_none.mp hfind t ht
  | some u =>
    have hu : u.node = t.node := by simpa using List.find?_some hfind
    have hut := List.inj_on_of_nodup_map hnodup (List.mem_of_find?_eq_some hfind) ht hu
    exact congrArg lines hut

theorem handOver_of_forall_ne (h : ∀ t ∈ kept, t.node ≠ id) :
    handOver lines kept node pending id = if id = node then [] else pending id := by
  have hfind : kept.find? (·.node = id) = none :=
    List.find?_eq_none.mpr fun t ht => by simpa using h t ht
  simp only [handOver, hfind]

end HandOver

/-- What a turn of `s` has to show: the states `kept` are whole, and the lines of `new` with theirs
are those of the tip with those of `s`. -/
theorem Promises.turn {depth : Nat} {lines : List String} {g new : Growth Statement Comparison}
    {e' : Explorer} {rest : List State} {statements : Array Statement} (kept : List State)
    (hg : Grown g e (s :: rest)) (hp : Promises program input depth lines g e (s :: rest))
    (hnode : e.tree.node? s.node = some (.linear statements none)) (hsame : SameSetting e e')
    (hwhole : ∀ t ∈ kept, (t.path.outline program input depth).Whole)
    (hfresh : ∀ t ∈ kept, t.node = s.node ∨ t.node ∉ g.ids)
    (hnodup : (kept.map State.node).Nodup)
    (hnew : ∀ pending : NodeId → List String,
      (∀ t ∈ kept, pending t.node = future program input depth t) →
      ((∀ t ∈ kept, t.node ≠ s.node) → pending s.node = []) →
        new.linesWith pending =
          statements.toList.map Spelled.text ++ future program input depth s) :
    Promises program input depth lines (g.amend s.node new) e' (kept ++ rest) := by
  obtain ⟨hfree, hwhole', pending, hlive, hidle, hlines⟩ := hp
  have hkept : ∀ t ∈ kept, handOver (future program input depth) kept s.node pending t.node =
      future program input depth t := fun t ht => handOver_of_mem hnodup ht
  -- the nodes of `kept` are that of `s` and new ones
  have hold : ∀ id ∈ g.ids, id ≠ s.node →
      handOver (future program input depth) kept s.node pending id = pending id := by
    intro id hid hne
    rw [handOver_of_forall_ne, if_neg hne]
    rintro t ht rfl
    exact (hfresh t ht).elim hne fun h => h hid
  refine ⟨hfree.of_sameSetting hsame, fun t ht => ?_,
    handOver (future program input depth) kept s.node pending, fun t ht => ?_, fun id hid => ?_, ?_⟩
  · rcases List.mem_append.mp ht with ht | ht
    · exact hwhole t ht
    · exact hwhole' t (List.mem_cons_of_mem _ ht)
  · rcases List.mem_append.mp ht with ht | ht
    · exact hkept t ht
    · have htips := hg.tips t (List.mem_cons_of_mem _ ht)
      rw [hold _ (Growth.mem_ids_of_mem_tips htips) (hg.node_ne ht)]
      exact hlive t (List.mem_cons_of_mem _ ht)
  · rw [handOver_of_forall_ne fun t ht => hid t (List.mem_append_left _ ht)]
    by_cases he : id = s.node
    · rw [if_pos he]
    · rw [if_neg he]
      refine hidle id fun t ht => ?_
      rcases List.mem_cons.mp ht with rfl | ht
      · exact fun h => he h.symm
      · exact hid t (List.mem_append_right _ ht)
  · rw [← hlines]
    refine Growth.linesWith_amend hg.spans.held hnode
      (fun i hi hne => hold i (Growth.mem_ids_of_mem_tips hi) hne) ?_
    rw [hlive s List.mem_cons_self]
    exact hnew _ hkept fun hne => by rw [handOver_of_forall_ne hne, if_pos rfl]

/-- **What has been written together with what is still to come never changes.** -/
theorem invariant_promises (depth : Nat) (lines : List String) :
    Invariant (Promises program input depth lines) where
  perm hperm h := by
    obtain ⟨hfree, hwhole, pending, hlive, hidle, hlines⟩ := h
    refine ⟨hfree, fun t ht => hwhole t (hperm.mem_iff.mpr ht), pending,
      fun t ht => hlive t (hperm.mem_iff.mpr ht), fun id hid => hidle id fun t ht => ?_, hlines⟩
    exact hid t (hperm.mem_iff.mp ht)
  active _ h := h
  settle {g e s rest statements step} hg hnode _ hstep h := by
    have hwhole := h.2.1 s List.mem_cons_self
    rw [h.1.1, h.1.2.1] at hstep
    have houtline := Path.outline_of_step_of_closed hwhole.1 hstep
    have hfuture : future program input depth s = step.emitted.map Statement.text ++
        (Path.continuation program input depth step).lines := by
      rw [future, houtline, Outline.lines]
    rw [houtline, Outline.whole_emit] at hwhole
    obtain ⟨emitted, path, outcome⟩ := step
    cases outcome with
    | running =>
      refine h.turn [{ s with path }] hg hnode sameSetting_settle ?_ (by simp) (by simp) ?_
      · simpa [Path.continuation] using hwhole
      · intro pending hkept _
        have hpath : pending s.node = (path.outline program input depth).lines :=
          hkept _ List.mem_cons_self
        simp [sprout, Growth.linesWith, hpath, hfuture, Path.continuation]
    | returned =>
      refine h.turn [] hg hnode sameSetting_settle (by simp) (by simp) (by simp) ?_
      intro pending _ hidle
      have hend : pending s.node = [] := hidle (by simp)
      simp [sprout, Growth.linesWith, hend, hfuture, Path.continuation, Outline.lines]
    | stopped error =>
      refine h.turn [] hg hnode sameSetting_settle (by simp) (by simp) (by simp) ?_
      intro pending _ hidle
      have hend : pending s.node = [] := hidle (by simp)
      simp [sprout, Growth.linesWith, hend, hfuture, Path.continuation, Outline.lines]
    | forked test target =>
      refine h.turn (e.children s path target) hg hnode sameSetting_settle ?_ ?_ ?_ ?_
      · simpa [children, Path.continuation] using hwhole
      · simp [children, hg.spans.not_mem_ids]
      · simp [children]
      · intro pending hkept _
        simp only [children, List.forall_mem_cons] at hkept
        obtain ⟨hconsequent, halternate, -⟩ := hkept
        rw [hfuture]
        simp [sprout, Growth.split, Growth.linesWith, hconsequent, halternate, Path.continuation,
          Outline.lines, future]
  cutOff _ _ hx h := by
    rw [h.1.not_exhausted] at hx
    cases hx

theorem holds_initial (program : Program) (input : Input) :
    Holds (Free program input) (initial program input none) (initial program input none).active :=
  ⟨_, grown_initial program input none, rfl, rfl, rfl⟩

theorem promises_initial {depth : Nat} (h : (Path.outline program input depth .initial).Whole) :
    Holds (Promises program input depth (Path.outline program input depth .initial).lines)
      (initial program input none) (initial program input none).active := by
  refine ⟨_, grown_initial program input none, ⟨rfl, rfl, rfl⟩, ?_,
    fun id => if id = ⟨0⟩ then (Path.outline program input depth .initial).lines else [], ?_, ?_, ?_⟩
  · simpa [initial] using h
  · simp [initial, future, StatementTree.addLinear, StatementTree.add, StatementTree.empty,
      StatementTree.size]
  · intro id hid
    refine if_neg ?_
    rintro rfl
    exact hid _ List.mem_cons_self rfl
  · simp [Growth.linesWith]

/-- **Exploration is recursion.** Without a budget it comes to an end and succeeds if and only if the
tree of the first path is finite and without faults, and then it has written the lines of that
tree. -/
theorem explore_eq_recursion (program : Program) (input : Input) :
    ((∃ rounds e, (initial program input none).explore rounds = .complete e) ↔
      (∃ depth, (outline program input depth 0 .initial 0).Closed) ∧
        ∀ depth, (outline program input depth 0 .initial 0).Faultless) ∧
    ∀ rounds e depth, (initial program input none).explore rounds = .complete e →
      (outline program input depth 0 .initial 0).Closed →
        e.lines = (outline program input depth 0 .initial 0).lines := by
  have hcomplete : ∀ n, (∃ e, (initial program input none).explore n = .complete e) ↔
      (Path.outline program input n .initial).Whole := fun n =>
    (complete_iff_whole n (holds_initial program input) (by simp [initial])).trans
      (by simp [initial])
  refine ⟨?_, fun rounds e depth he hclosed => ?_⟩
  · exact (exists_congr hcomplete).trans Path.exists_whole_iff
  · have hwhole := (hcomplete rounds).mp ⟨e, he⟩
    have hclosed : (Path.outline program input depth .initial).Closed := hclosed
    have heq : Path.outline program input depth .initial =
        Path.outline program input rounds .initial := by
      rcases Nat.le_total depth rounds with hle | hle
      · exact (Path.outline_eq_of_closed hclosed hle).symm
      · exact Path.outline_eq_of_closed hwhole.1 hle
    obtain ⟨g, hg, -, -, pending, -, hidle, hlines⟩ :=
      (invariant_promises rounds _).complete (promises_initial hwhole) he
    have hnone : pending = fun _ => [] := funext fun id => hidle id (by simp)
    rw [hnone] at hlines
    exact (hg.spans.lines_eq.trans hlines).trans (congrArg Outline.lines heq.symm)

/-- A branch that skips one instruction. -/
theorem lines_of_branch :
    let program := Program.ofList
      [⟨0, .set ⟨5⟩ "1"⟩, ⟨1, .branch .less ⟨5⟩ ⟨6⟩ ⟨7⟩⟩, ⟨2, .print ⟨5⟩⟩, ⟨3, .ret⟩]
    ∃ e, (initial program ⟨1, "flag"⟩ none).explore 4 = .complete e ∧
      e.lines = (outline program ⟨1, "flag"⟩ 4 0 .initial 0).lines ∧
      e.lines = ["if (\"\" < \"\") \x7b", "\treturn 0;", "\x7d else \x7b", "\tputs(\"1\");",
        "\treturn 0;", "\x7d"] :=
  ⟨_, rfl, (explore_eq_recursion _ _).2 4 _ 4 rfl ⟨trivial, trivial⟩, by decide +kernel⟩

end Explorer

end Lifter
