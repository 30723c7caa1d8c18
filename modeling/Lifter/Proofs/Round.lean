import Lifter.Proofs.Turn

/-!
# What rounds keep

A round takes every active state through its turn, and a state that is alive stands in one of
several lists while the round goes on: waiting for its turn, a survivor, or just spawned. A property
of an exploration and of the states that are alive, in whatever order, holds throughout a round as
soon as every single turn keeps it.

* `Explorer.SameSetting`: what no turn changes.
* `Explorer.Invariant`: a property that every turn keeps.
* `Explorer.Invariant.sweep`, **`Explorer.Invariant.round`**: so does a round, which can fail only by
  a fault of an instruction.
* `Explorer.afterRounds`, `Explorer.Reachable`: explorations after a number of rounds, and after any
  calls of `round` and `explore`.
* **`Explorer.Invariant.of_reachable`**: an invariant holds of them, also after a failed round.
-/

namespace Lifter.Explorer

/-! ## What turns do not change -/

/-- Two explorations agree in what is fixed during a round. -/
structure SameSetting (e e' : Explorer) : Prop where
  program : e'.program = e.program
  input : e'.input = e.input
  budget : e'.budget = e.budget
  root : e'.root = e.root
  active : e'.active = e.active

variable {e e' : Explorer} {s : State} {statements : Array Statement} {step : Step}

theorem SameSetting.refl (e : Explorer) : SameSetting e e := ⟨rfl, rfl, rfl, rfl, rfl⟩

theorem SameSetting.trans {e₁ e₂ e₃ : Explorer} (h : SameSetting e₁ e₂) (h' : SameSetting e₂ e₃) :
    SameSetting e₁ e₃ :=
  ⟨h'.program.trans h.program, h'.input.trans h.input, h'.budget.trans h.budget,
    h'.root.trans h.root, h'.active.trans h.active⟩

theorem sameSetting_settle : SameSetting e (e.settle s statements step).explorer := by
  obtain ⟨emitted, path, outcome⟩ := step
  cases outcome <;> exact ⟨rfl, rfl, rfl, rfl, rfl⟩

theorem sameSetting_cutOff : SameSetting e (e.cutOff s statements) := ⟨rfl, rfl, rfl, rfl, rfl⟩

@[simp] theorem steps_settle : (e.settle s statements step).explorer.steps = e.steps + 1 := by
  obtain ⟨emitted, path, outcome⟩ := step
  cases outcome <;> rfl

theorem visit_of_exhausted (h : e.tree.node? s.node = some (.linear statements none))
    (hx : e.exhausted = true) : e.visit s = .ok ⟨e.cutOff s statements, [], []⟩ := by
  simp only [visit, hx, if_true, truncate_eq h]
  rfl

theorem visit_of_step (h : e.tree.node? s.node = some (.linear statements none))
    (hx : e.exhausted = false) (hstep : s.path.step e.program e.input = .ok step) :
    e.visit s = .ok (e.settle s statements step) := by
  simp [visit, hx, advance_eq h, hstep]

theorem visit_of_fault (h : e.tree.node? s.node = some (.linear statements none))
    (hx : e.exhausted = false) {fault : Fault}
    (hstep : s.path.step e.program e.input = .error fault) :
    e.visit s = .error (.fault fault) := by
  simp [visit, hx, advance_eq h, hstep]

/-! ## Invariants -/

/-- A property of the growth, the exploration and the states alive that every turn keeps. -/
structure Invariant (P : Growth Statement Comparison → Explorer → List State → Prop) : Prop where
  perm : ∀ {g e live live'}, live.Perm live' → P g e live → P g e live'
  active : ∀ {g e live} (active : List State), P g e live → P g { e with active } live
  settle : ∀ {g e s rest statements step}, Grown g e (s :: rest) →
    e.tree.node? s.node = some (.linear statements none) → e.exhausted = false →
      s.path.step e.program e.input = .ok step → P g e (s :: rest) →
        P (g.amend s.node (e.sprout s statements step)) (e.settle s statements step).explorer
          ((e.settle s statements step).survivors ++ (e.settle s statements step).spawned ++ rest)
  cutOff : ∀ {g e s rest statements}, Grown g e (s :: rest) →
    e.tree.node? s.node = some (.linear statements none) → e.exhausted = true →
      P g e (s :: rest) →
        P (g.amend s.node (.tip s.node (statements.push PathError.budgetExhausted.placeholder)))
          (e.cutOff s statements) rest

/-- Nothing more than having a growth. -/
theorem invariant_true : Invariant fun _ _ _ => True where
  perm _ _ := trivial
  active _ _ := trivial
  settle _ _ _ _ _ := trivial
  cutOff _ _ _ _ := trivial

/-- What an exploration was started with does not change. -/
theorem invariant_setting (program : Program) (input : Input) (budget : Option Nat) :
    Invariant fun _ e _ => e.program = program ∧ e.input = input ∧ e.budget = budget where
  perm _ h := h
  active _ h := h
  settle _ _ _ _ h := ⟨sameSetting_settle.program.trans h.1, sameSetting_settle.input.trans h.2.1,
    sameSetting_settle.budget.trans h.2.2⟩
  cutOff _ _ _ h := h

variable {P Q : Growth Statement Comparison → Explorer → List State → Prop}
  {g : Growth Statement Comparison} {live : List State}

theorem Invariant.and (hP : Invariant P) (hQ : Invariant Q) :
    Invariant fun g e live => P g e live ∧ Q g e live where
  perm hp h := ⟨hP.perm hp h.1, hQ.perm hp h.2⟩
  active active h := ⟨hP.active active h.1, hQ.active active h.2⟩
  settle hg hnode hx hstep h := ⟨hP.settle hg hnode hx hstep h.1, hQ.settle hg hnode hx hstep h.2⟩
  cutOff hg hnode hx h := ⟨hP.cutOff hg hnode hx h.1, hQ.cutOff hg hnode hx h.2⟩

/-- An exploration with live states of which an invariant holds. -/
def Holds (P : Growth Statement Comparison → Explorer → List State → Prop) (e : Explorer)
    (live : List State) : Prop :=
  ∃ g, Grown g e live ∧ P g e live

theorem Holds.active (hP : Invariant P) (h : Holds P e live) (active : List State) :
    Holds P { e with active } live := by
  obtain ⟨g, hg, hp⟩ := h
  exact ⟨g, ⟨hg.spans, hg.tips, hg.ended, hg.nodup⟩, hP.active active hp⟩

/-- An exploration that meets a fault: the first state of those alive cannot run its instruction. -/
def Meets (e : Explorer) (live : List State) (fault : Fault) : Prop :=
  ∃ s ∈ live.head?, e.exhausted = false ∧ s.path.step e.program e.input = .error fault

/-- **One turn.** -/
theorem Invariant.visit (hP : Invariant P) {rest : List State} (h : Holds P e (s :: rest)) :
    (∃ turn, e.visit s = .ok turn ∧ SameSetting e turn.explorer ∧
      Holds P turn.explorer (turn.survivors ++ turn.spawned ++ rest)) ∨
    ∃ fault, e.visit s = .error (.fault fault) ∧ Meets e (s :: rest) fault := by
  obtain ⟨g, hg, hp⟩ := h
  obtain ⟨statements, hnode⟩ := hg.open_node List.mem_cons_self
  cases hx : e.exhausted with
  | true =>
    exact Or.inl ⟨_, visit_of_exhausted hnode hx, sameSetting_cutOff, _, hg.cutOff statements,
      hP.cutOff hg hnode hx hp⟩
  | false =>
    cases hstep : s.path.step e.program e.input with
    | error fault =>
      exact Or.inr ⟨fault, visit_of_fault hnode hx hstep, s, rfl, hx, hstep⟩
    | ok step =>
      exact Or.inl ⟨_, visit_of_step hnode hx hstep, sameSetting_settle, _,
        hg.settle statements step, hP.settle hg hnode hx hstep hp⟩

/-- Those alive after a turn are the same whether they are taken as a turn leaves them or as a sweep
collects them. -/
theorem Turn.perm_live (turn : Turn) (rest : List State) (survivors spawned : Array State) :
    (turn.survivors ++ turn.spawned ++ (rest ++ (survivors.toList ++ spawned.toList))).Perm
      (rest ++ ((survivors ++ turn.survivors).toList ++ (spawned ++ turn.spawned).toList)) := by
  simp only [Array.toList_appendList, List.append_assoc]
  rw [← List.append_assoc turn.survivors]
  refine List.perm_append_comm.trans ?_
  simp only [List.append_assoc]
  exact ((List.perm_append_comm_assoc _ _ _).append_left _).append_left _

/-- **The turns of several states.** -/
theorem Invariant.sweep (hP : Invariant P) (waiting : List State) {survivors spawned : Array State}
    (h : Holds P e (waiting ++ (survivors.toList ++ spawned.toList))) :
    (∃ e' remaining, e.sweep survivors spawned waiting = (e', .ok remaining) ∧ SameSetting e e' ∧
      Holds P e' remaining) ∨
    ∃ e' fault rest, e.sweep survivors spawned waiting = (e', .error (.fault fault)) ∧
      SameSetting e e' ∧ Holds P e' rest ∧ Meets e' rest fault := by
  induction waiting generalizing e survivors spawned with
  | nil => exact Or.inl ⟨e, _, rfl, .refl e, h⟩
  | cons s rest ih =>
    rcases hP.visit h with ⟨turn, hvisit, hsame, hturn⟩ | ⟨fault, hvisit, hmeets⟩
    · have hlive := turn.perm_live rest survivors spawned
      obtain ⟨g, hg, hp⟩ := hturn
      have hrest := ih ⟨g, hg.perm hlive, hP.perm hlive hp⟩
      simp only [Explorer.sweep, hvisit]
      rcases hrest with ⟨e', remaining, hs, hsame', hh⟩ | ⟨e', fault, left, hs, hsame', hh, hm⟩
      · exact Or.inl ⟨e', remaining, hs, hsame.trans hsame', hh⟩
      · exact Or.inr ⟨e', fault, left, hs, hsame.trans hsame', hh, hm⟩
    · refine Or.inr ⟨e, fault, _, ?_, .refl e, h, hmeets⟩
      simp only [Explorer.sweep, hvisit]

theorem Invariant.truncateAll (hP : Invariant P) (hx : e.exhausted = true)
    (h : Holds P e live) :
    ∃ e', e.truncateAll live = (e', .ok ()) ∧ SameSetting e e' ∧ Holds P e' [] := by
  induction live generalizing e with
  | nil => exact ⟨e, rfl, .refl e, h⟩
  | cons s rest ih =>
    obtain ⟨g, hg, hp⟩ := h
    obtain ⟨statements, hnode⟩ := hg.open_node List.mem_cons_self
    obtain ⟨e', hall, hsame, hh⟩ := ih (e := e.cutOff s statements) hx
      ⟨_, hg.cutOff statements, hP.cutOff hg hnode hx hp⟩
    refine ⟨e', ?_, sameSetting_cutOff.trans hsame, hh⟩
    simp only [Explorer.truncateAll, truncate_eq hnode, hall]

/-- **A round keeps an invariant.** It fails only by a fault, and then no state is active. -/
theorem Invariant.round (hP : Invariant P) (h : Holds P e e.active) :
    (∃ e', e.round = (e', .ok !e'.active.isEmpty) ∧ Holds P e' e'.active) ∨
    ∃ e' fault rest, e.round = (e', .error (.fault fault)) ∧ e'.active = [] ∧ Holds P e' rest ∧
      Meets e' rest fault := by
  have hstart : Holds P { e with active := [] } (e.active ++ (#[].toList ++ #[].toList)) := by
    simpa using h.active hP []
  rcases hP.sweep e.active hstart with ⟨e', remaining, hs, hsame, hh⟩ |
    ⟨e', fault, rest, hs, hsame, hh, hm⟩
  · left
    simp only [Explorer.round, hs]
    by_cases hx : e'.exhausted = true
    · obtain ⟨e'', hall, hsame', hh'⟩ := hP.truncateAll hx hh
      have hactive : e''.active = [] := hsame'.active.trans hsame.active
      exact ⟨e'', by simp [hx, hall, hactive], hactive ▸ hh'⟩
    · exact ⟨{ e' with active := remaining }, by simp [hx], hh.active hP remaining⟩
  · right
    exact ⟨e', fault, rest, by simp only [Explorer.round, hs], hsame.active, hh, hm⟩

/-- **A complete exploration keeps an invariant**, and no state is left alive in it. -/
theorem Invariant.complete (hP : Invariant P) (h : Holds P e e.active) {rounds : Nat}
    (hc : e.explore rounds = .complete e') : Holds P e' [] := by
  induction rounds generalizing e with
  | zero => cases hc
  | succ rounds ih =>
    rcases hP.round h with ⟨e'', hround, hh⟩ | ⟨e'', fault, rest, hround, -⟩
    · cases hactive : e''.active with
      | nil =>
        simp only [explore, hround, hactive] at hc
        cases hc
        exact hactive ▸ hh
      | cons s rest =>
        simp only [explore, hround, hactive] at hc
        exact ih hh hc
    · simp only [explore, hround] at hc
      cases hc

/-! ## Reachable explorations -/

/-- An exploration after a number of rounds, whether or not these fail. -/
def afterRounds (e : Explorer) : (n : Nat) → Explorer
  | 0 => e
  | n + 1 => (e.afterRounds n).round.1

/-- **Rounds that succeed keep an invariant.** -/
theorem Invariant.afterRounds (hP : Invariant P) (h : Holds P e e.active) {n : Nat}
    (hok : ∀ k < n, ∃ more, (e.afterRounds k).round.2 = .ok more) :
    Holds P (e.afterRounds n) (e.afterRounds n).active := by
  induction n with
  | zero => exact h
  | succ n ih =>
    obtain ⟨more, hmore⟩ := hok n (Nat.lt_succ_self n)
    rcases hP.round (ih fun k hk => hok k (Nat.lt_succ_of_lt hk)) with
      ⟨e', he, hh⟩ | ⟨e', fault, rest, he, -⟩
    · rw [Explorer.afterRounds, he]
      exact hh
    · rw [he] at hmore
      cases hmore

/-- The exploration as it is left. -/
def Exploration.explorer : Exploration → Explorer
  | complete e | failed e _ | unfinished e => e

/-- Explorations of a program after any calls of `round` and `explore`, whether or not these
fail. -/
inductive Reachable (program : Program) (input : Input) (budget : Option Nat) : Explorer → Prop
  | initial : Reachable program input budget (.initial program input budget)
  | round {e : Explorer} : Reachable program input budget e → Reachable program input budget e.round.1
  | explore {e : Explorer} (rounds : Nat) : Reachable program input budget e →
      Reachable program input budget (e.explore rounds).explorer

theorem Reachable.of_complete {program : Program} {input : Input} {budget : Option Nat}
    {rounds : Nat} (h : (Explorer.initial program input budget).explore rounds = .complete e) :
    Reachable program input budget e := by
  have hreachable : Reachable program input budget
      ((Explorer.initial program input budget).explore rounds).explorer := .explore rounds .initial
  rwa [h] at hreachable

theorem grown_initial (program : Program) (input : Input) (budget : Option Nat) :
    Grown (.tip ⟨0⟩ #[]) (.initial program input budget) (initial program input budget).active where
  spans := ⟨rfl, rfl, List.Perm.refl _⟩
  tips t ht := by obtain rfl := List.mem_singleton.mp ht; exact List.mem_singleton_self _
  ended t ht := by simp [initial] at ht
  nodup := by simp [initial]

theorem explore_induction {Q : Explorer → Prop} (hround : ∀ e, Q e → Q e.round.1) (h : Q e)
    (rounds : Nat) : Q (e.explore rounds).explorer := by
  induction rounds generalizing e with
  | zero => exact h
  | succ rounds ih =>
    have hnext := hround e h
    unfold Explorer.explore
    split <;> rename_i e' _ he <;> rw [he] at hnext
    · exact hnext
    · exact ih hnext
    · exact hnext

/-- What rounds keep holds of every reachable exploration. -/
theorem Reachable.of_round {program : Program} {input : Input} {budget : Option Nat}
    {Q : Explorer → Prop} (hinitial : Q (.initial program input budget))
    (hround : ∀ e, Q e → Q e.round.1) (h : Reachable program input budget e) : Q e := by
  induction h with
  | initial => exact hinitial
  | round _ ih => exact hround _ ih
  | explore rounds _ ih => exact explore_induction hround ih rounds

theorem round_of_idle (h : e.active = []) : e.round = (e, .ok false) := by
  have hsame : { e with active := [] } = e := by rw [← h]
  simp only [Explorer.round, h, Explorer.sweep, hsame]
  split
  · rfl
  · simp [hsame]

/-- **Invariants hold of reachable explorations.** After a failed round no state is active any more;
then an invariant holds with the states that were alive when the round failed. -/
theorem Invariant.of_reachable (hP : Invariant P) {program : Program} {input : Input}
    {budget : Option Nat} (hinitial : Holds P (.initial program input budget)
      (initial program input budget).active) (h : Reachable program input budget e) :
    ∃ live, Holds P e live ∧ (live = e.active ∨ e.active = []) := by
  refine Reachable.of_round
    (Q := fun e => ∃ live, Holds P e live ∧ (live = e.active ∨ e.active = []))
    ⟨_, hinitial, Or.inl rfl⟩ (fun e he => ?_) h
  obtain ⟨live, hholds, hlive⟩ := he
  by_cases hidle : e.active = []
  · rw [round_of_idle hidle]
    exact ⟨live, hholds, Or.inr hidle⟩
  · obtain rfl := hlive.resolve_right hidle
    rcases hP.round hholds with ⟨e', he, hh⟩ | ⟨e', fault, rest, he, hactive, hh, -⟩
    · rw [he]
      exact ⟨_, hh, Or.inl rfl⟩
    · rw [he]
      exact ⟨rest, hh, Or.inr hactive⟩

end Lifter.Explorer
