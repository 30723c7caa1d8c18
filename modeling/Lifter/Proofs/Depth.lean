import Lifter.Proofs.Kinship
import Lifter.Proofs.Recursion

/-!
# Rounds and depth

A round takes every active state one instruction further, so the states that are active after `k`
rounds are the ends of all ways of taking `k` steps, where a path may go both ways at a branch. What
decides how a path goes on is its **situation**; identifiers, nodes and addresses play no part. If a
step fails, the least depth at which one does decides in which round exploration fails, and the
oldest of the states that fail there decides how.

* `Situation`, `Situation.next`, `Situation.after`: situations, one step, and all ways of taking so
  many steps, with `Situation.after_succ` for one step more at the end.
* `Explorer.sweep_of_free`, `Explorer.round_of_situations`: what the turns of a round do to
  situations, and `Explorer.situations_afterRounds`, `Explorer.succeeds_iff`: what many rounds do.
* `Explorer.FailsIn`, `Explorer.failsIn_iff`: the round in which exploration fails.
* **`Explorer.rounds_eq_depth`**: rounds are depth.
-/

namespace Lifter

/-! ## Situations -/

/-- What decides how a path goes on. -/
structure Situation where
  /-- The position of the next instruction. -/
  position : Nat
  registers : RegisterFile
  /-- How often the path has read input. -/
  reads : Nat

/-- The situation of a path. -/
def Path.situation (path : Path) : Situation := ⟨path.position, path.registers, path.reads⟩

/-- The situations in which a step leaves a path: none if it ends, and two if it splits. -/
def Step.situations (step : Step) : List Situation :=
  match step.outcome with
  | .running => [step.path.situation]
  | .returned | .stopped _ => []
  | .forked _ target => [{ step.path.situation with position := target }, step.path.situation]

namespace Situation

/-- Before the first instruction. -/
def initial : Situation := ⟨0, .initial, 0⟩

/-- The situations that one step leads to, or why it cannot be taken. -/
def next (program : Program) (input : Input) (c : Situation) : Except Fault (List Situation) :=
  (Path.step program input ⟨c.position, 0, c.registers, c.reads⟩).map Step.situations

/-- The next step cannot be taken. -/
def Fails (program : Program) (input : Input) (c : Situation) : Prop :=
  ∃ fault, c.next program input = .error fault

/-- The situations that one step leads to, if it can be taken. -/
def successors (program : Program) (input : Input) (c : Situation) : List Situation :=
  match c.next program input with
  | .error _ => []
  | .ok situations => situations

/-- The situations at the ends of all ways of taking `k` steps, as often as there are ways. -/
def after (program : Program) (input : Input) : (k : Nat) → Situation → List Situation
  | 0, c => [c]
  | k + 1, c => (c.successors program input).flatMap (after program input k)

variable {program : Program} {input : Input}

theorem successors_of_ok {c : Situation} {situations : List Situation}
    (h : c.next program input = .ok situations) : c.successors program input = situations := by
  simp only [successors, h]

/-- One step more at the end of every way. -/
theorem after_succ (k : Nat) (c : Situation) : c.after program input (k + 1) =
    (c.after program input k).flatMap (successors program input) := by
  induction k generalizing c with
  | zero => simp [after]
  | succ k ih =>
    have hsplit : c.after program input (k + 2) =
        (c.successors program input).flatMap fun d => d.after program input (k + 1) := rfl
    rw [hsplit, after, List.flatMap_assoc]
    exact List.flatMap_congr fun d _ => ih d

end Situation

/-- The address of the last instruction has no part in a step. -/
theorem Path.next_situation (program : Program) (input : Input) (path : Path) :
    path.situation.next program input = (path.step program input).map Step.situations := by
  obtain ⟨position, address, registers, reads⟩ := path
  unfold Situation.next Path.situation Path.step
  cases program.get? position <;> rfl

theorem Path.fails_iff {program : Program} {input : Input} {path : Path} :
    path.situation.Fails program input ↔ ∃ fault, path.step program input = .error fault := by
  unfold Situation.Fails
  rw [next_situation]
  cases path.step program input <;> simp [Except.map]

/-! ## Turns and rounds -/

namespace Explorer

variable {program : Program} {input : Input} {e e' : Explorer} {s : State} {rest : List State}

/-- The situations of some states. -/
def situations (states : List State) : List Situation := states.map (·.path.situation)

/-- What a turn leaves is in the situations that the step leads to. -/
theorem situations_settle (e : Explorer) (s : State) (statements : Array Statement) (step : Step) :
    situations ((e.settle s statements step).survivors ++ (e.settle s statements step).spawned) =
      step.situations := by
  obtain ⟨emitted, path, outcome⟩ := step
  cases outcome <;> rfl

/-- **The turn of one state.** -/
theorem visit_of_free (h : Holds (Free program input) e (s :: rest)) :
    (∃ turn, e.visit s = .ok turn ∧
      Holds (Free program input) turn.explorer (turn.survivors ++ turn.spawned ++ rest) ∧
      ¬ s.path.situation.Fails program input ∧
      situations (turn.survivors ++ turn.spawned) =
        s.path.situation.successors program input) ∨
    ∃ fault, e.visit s = .error (.fault fault) ∧ s.path.step program input = .error fault := by
  obtain ⟨g, hg, hfree⟩ := h
  obtain ⟨statements, hnode⟩ := hg.open_node List.mem_cons_self
  have hx := hfree.not_exhausted
  cases hstep : s.path.step e.program e.input with
  | error fault =>
    rw [visit_of_fault hnode hx hstep]
    rw [hfree.1, hfree.2.1] at hstep
    exact Or.inr ⟨fault, rfl, hstep⟩
  | ok step =>
    rw [visit_of_step hnode hx hstep]
    have hnext : s.path.situation.next program input = .ok step.situations := by
      rw [Path.next_situation, ← hfree.1, ← hfree.2.1, hstep]
      rfl
    refine Or.inl ⟨_, rfl, ⟨_, hg.settle statements step,
      invariant_free.settle hg hnode hx hstep hfree⟩, ?_, ?_⟩
    · rintro ⟨fault, hfault⟩
      cases hnext.symm.trans hfault
    · rw [situations_settle, Situation.successors_of_ok hnext]

/-- The first of some states whose step fails, and how. -/
def FirstFault (program : Program) (input : Input) (states : List State) (fault : Fault) : Prop :=
  ∃ before s after, states = before ++ s :: after ∧
    (∀ t ∈ before, ¬ t.path.situation.Fails program input) ∧
      s.path.step program input = .error fault

/-- **The turns of several states.** -/
theorem sweep_of_free (waiting : List State) {survivors spawned : Array State}
    (h : Holds (Free program input) e (waiting ++ (survivors.toList ++ spawned.toList))) :
    (∃ e' remaining, e.sweep survivors spawned waiting = (e', .ok remaining) ∧
      Holds (Free program input) e' remaining ∧
      (∀ t ∈ waiting, ¬ t.path.situation.Fails program input) ∧
      (situations remaining).Perm ((situations waiting).flatMap (Situation.successors program input)
        ++ situations (survivors.toList ++ spawned.toList))) ∨
    ∃ e' fault, e.sweep survivors spawned waiting = (e', .error (.fault fault)) ∧
      FirstFault program input waiting fault := by
  induction waiting generalizing e survivors spawned with
  | nil => exact Or.inl ⟨e, _, rfl, h, by simp, List.Perm.refl _⟩
  | cons s rest ih =>
    rcases visit_of_free h with ⟨turn, hvisit, ⟨g, hg, hfree⟩, hfine, hturn⟩ |
      ⟨fault, hvisit, hfault⟩
    · simp only [sweep, hvisit]
      rcases ih ⟨g, hg.perm (turn.perm_live rest survivors spawned), hfree⟩ with
        ⟨e', remaining, hs, hh, hall, hperm⟩ | ⟨e', fault, hs, before, t, after, rfl, hbefore, ht⟩
      · refine Or.inl ⟨e', remaining, hs, hh, List.forall_mem_cons.mpr ⟨hfine, hall⟩,
          hperm.trans ?_⟩
        -- what the turn leaves has gone to the collected states
        have hcollected : (situations ((survivors ++ turn.survivors).toList ++
            (spawned ++ turn.spawned).toList)).Perm
              (situations (turn.survivors ++ turn.spawned) ++
                situations (survivors.toList ++ spawned.toList)) := by
          have hlive := (turn.perm_live [] survivors spawned).symm.map (·.path.situation)
          simpa only [List.nil_append, situations, List.map_append] using hlive
        have hcons : (situations (s :: rest)).flatMap (Situation.successors program input) =
            situations (turn.survivors ++ turn.spawned) ++
              (situations rest).flatMap (Situation.successors program input) := by
          rw [hturn]
          rfl
        rw [hcons, List.append_assoc]
        exact (hcollected.append_left _).trans (List.perm_append_comm_assoc _ _ _)
      · exact Or.inr ⟨e', fault, hs, s :: before, t, after, rfl,
          List.forall_mem_cons.mpr ⟨hfine, hbefore⟩, ht⟩
    · refine Or.inr ⟨e, fault, ?_, [], s, rest, rfl, by simp, hfault⟩
      simp only [sweep, hvisit]

/-- **One round.** Either every active state takes its step, or the first that cannot take it ends
the round. -/
theorem round_of_situations (h : Holds (Free program input) e e.active) :
    (∃ e', e.round = (e', .ok !e'.active.isEmpty) ∧ Holds (Free program input) e' e'.active ∧
      (∀ t ∈ e.active, ¬ t.path.situation.Fails program input) ∧
      (situations e'.active).Perm
        ((situations e.active).flatMap (Situation.successors program input))) ∨
    ∃ e' fault, e.round = (e', .error (.fault fault)) ∧
      FirstFault program input e.active fault := by
  have hstart : Holds (Free program input) { e with active := [] }
      (e.active ++ (#[].toList ++ #[].toList)) := by
    simpa using h.active invariant_free []
  rcases sweep_of_free e.active hstart with
    ⟨e', remaining, hs, hh, hall, hperm⟩ | ⟨e', fault, hs, hfirst⟩
  · have hx : e'.exhausted = false := by
      obtain ⟨g, -, hfree⟩ := hh
      exact hfree.not_exhausted
    refine Or.inl ⟨{ e' with active := remaining }, by simp [round, hs, hx],
      hh.active invariant_free remaining, hall, ?_⟩
    simpa [situations] using hperm
  · exact Or.inr ⟨e', fault, by simp only [round, hs], hfirst⟩

/-! ## Runs of rounds -/

/-- The first rounds of an exploration succeed. -/
def Succeeds (e : Explorer) (k : Nat) : Prop :=
  ∀ j < k, ∃ more, (e.afterRounds j).round.2 = .ok more

theorem Succeeds.succ {k : Nat} (h : e.Succeeds k) {more : Bool}
    (hmore : (e.afterRounds k).round.2 = .ok more) : e.Succeeds (k + 1) := by
  intro j hj
  rcases Nat.lt_succ_iff_lt_or_eq.mp hj with hj | rfl
  · exact h j hj
  · exact ⟨more, hmore⟩

/-- **The active states after `k` rounds are the ends of all ways of taking `k` steps.** -/
theorem situations_afterRounds {k : Nat} (h : (initial program input none).Succeeds k) :
    (situations ((initial program input none).afterRounds k).active).Perm
      (Situation.initial.after program input k) := by
  induction k with
  | zero => exact List.Perm.refl _
  | succ k ih =>
    have hearlier : (initial program input none).Succeeds k := fun j hj =>
      h j (Nat.lt_succ_of_lt hj)
    obtain ⟨more, hmore⟩ := h k (Nat.lt_succ_self k)
    have hholds := invariant_free.afterRounds (holds_initial program input) hearlier
    rcases round_of_situations hholds with ⟨e', hround, -, -, hperm⟩ | ⟨e', fault, hround, -⟩
    · rw [Explorer.afterRounds, hround, Situation.after_succ]
      exact hperm.trans ((ih hearlier).flatMap_right _)
    · rw [hround] at hmore
      cases hmore

/-- A round succeeds if and only if no active state fails. -/
theorem round_ok_iff (h : Holds (Free program input) e e.active) :
    (∃ more, e.round.2 = .ok more) ↔ ∀ c ∈ situations e.active, ¬ c.Fails program input := by
  rcases round_of_situations h with ⟨e', hround, -, hfine, -⟩ | ⟨e', fault, hround, hfirst⟩
  · rw [hround]
    refine ⟨fun _ c hc => ?_, fun _ => ⟨_, rfl⟩⟩
    obtain ⟨t, ht, rfl⟩ := List.mem_map.mp hc
    exact hfine t ht
  · rw [hround]
    refine ⟨by rintro ⟨more, ⟨⟩⟩, fun hfine => ?_⟩
    obtain ⟨before, s, after, hactive, -, hs⟩ := hfirst
    have hmem : s ∈ e.active := by simp [hactive]
    exact absurd (Path.fails_iff.mpr ⟨fault, hs⟩) (hfine _ (List.mem_map_of_mem hmem))

/-- The round after `k` others succeeds if and only if no step fails at depth `k`. -/
theorem Succeeds.round_ok_iff {k : Nat} (h : (initial program input none).Succeeds k) :
    (∃ more, ((initial program input none).afterRounds k).round.2 = .ok more) ↔
      ∀ c ∈ Situation.initial.after program input k, ¬ c.Fails program input := by
  rw [Explorer.round_ok_iff (invariant_free.afterRounds (holds_initial program input) h)]
  simp only [(situations_afterRounds h).mem_iff]

/-- **The first `k` rounds succeed if and only if no step fails at a smaller depth.** -/
theorem succeeds_iff (k : Nat) : (initial program input none).Succeeds k ↔
    ∀ j < k, ∀ c ∈ Situation.initial.after program input j, ¬ c.Fails program input := by
  induction k with
  | zero => simp [Succeeds]
  | succ k ih =>
    constructor
    · intro h j hj
      have hearlier : (initial program input none).Succeeds j := fun i hi =>
        h i (Nat.lt_trans hi hj)
      exact hearlier.round_ok_iff.mp (h j hj)
    · intro h
      have hearlier := ih.mpr fun j hj => h j (Nat.lt_succ_of_lt hj)
      obtain ⟨more, hmore⟩ := hearlier.round_ok_iff.mpr (h k (Nat.lt_succ_self k))
      exact hearlier.succ hmore

/-! ## The round that fails -/

/-- Exploration fails in a given round, and not before; the first round is round 1. -/
def FailsIn (e : Explorer) (round : Nat) (error : ExecutionError) : Prop :=
  (∃ e', e.explore round = .failed e' error) ∧ ∀ n < round, ∃ e', e.explore n = .unfinished e'

theorem afterRounds_add (e : Explorer) (m n : Nat) :
    e.afterRounds (m + n) = (e.afterRounds m).afterRounds n := by
  induction n with
  | zero => rfl
  | succ n ih => rw [← Nat.add_assoc, Explorer.afterRounds, Explorer.afterRounds, ih]

theorem afterRounds_of_idle (h : e.active = []) (n : Nat) : e.afterRounds n = e := by
  induction n with
  | zero => rfl
  | succ n ih => rw [Explorer.afterRounds, ih, round_of_idle h]

/-- While states are active, exploration is its rounds. -/
theorem explore_add {n : Nat} (h : ∀ j < n, (e.afterRounds j).round.2 = .ok true) (m : Nat) :
    e.explore (n + m) = (e.afterRounds n).explore m := by
  induction n generalizing m with
  | zero => rw [Nat.zero_add]; rfl
  | succ n ih =>
    have hlast := h n (Nat.lt_succ_self n)
    rw [Nat.add_assoc, Nat.add_comm 1 m, ih fun j hj => h j (Nat.lt_succ_of_lt hj)]
    have hround : (e.afterRounds n).round = (e.afterRounds (n + 1), .ok true) := Prod.ext rfl hlast
    rw [explore, hround]

theorem explore_one_eq_failed_iff {error : ExecutionError} :
    (∃ e', e.explore 1 = .failed e' error) ↔ e.round.2 = .error error := by
  unfold explore
  rcases hround : e.round with ⟨e', result⟩
  cases result with
  | error cause => simp
  | ok more => cases more <;> simp [explore]

/-- Exploration is unfinished after `n` rounds only if each of them left states active. -/
theorem more_of_unfinished {n : Nat} (h : ∀ m ≤ n, ∃ e', e.explore m = .unfinished e') :
    ∀ j < n, (e.afterRounds j).round.2 = .ok true := by
  intro j
  induction j using Nat.strongRecOn with
  | ind j ih =>
    intro hj
    obtain ⟨e', he'⟩ := h (j + 1) hj
    rw [explore_add (fun i hi => ih i hi (Nat.lt_trans hi hj)) 1, explore] at he'
    rcases hround : (e.afterRounds j).round with ⟨e'', result⟩
    rw [hround] at he'
    cases result with
    | error error => cases he'
    | ok more =>
      cases more with
      | true => rfl
      | false => cases he'

/-- Exploration fails in round `k + 1` if and only if that round fails and those before it left
states active. -/
theorem failsIn_iff {k : Nat} {error : ExecutionError} : e.FailsIn (k + 1) error ↔
    (∀ j < k, (e.afterRounds j).round.2 = .ok true) ∧
      (e.afterRounds k).round.2 = .error error := by
  constructor
  · rintro ⟨hfailed, hunfinished⟩
    have hmore := more_of_unfinished fun m hm => hunfinished m (Nat.lt_succ_of_le hm)
    rw [explore_add hmore 1] at hfailed
    exact ⟨hmore, explore_one_eq_failed_iff.mp hfailed⟩
  · rintro ⟨hmore, herror⟩
    refine ⟨?_, fun n hn => ?_⟩
    · rw [explore_add hmore 1]
      exact explore_one_eq_failed_iff.mpr herror
    · have hless : ∀ j < n, (e.afterRounds j).round.2 = .ok true := fun j hj => hmore j (by omega)
      have hn := explore_add hless 0
      rw [Nat.add_zero] at hn
      exact ⟨_, hn⟩

/-- A round that fails finds states active, so those before it left some. -/
theorem more_of_error {k : Nat} {error : ExecutionError}
    (h : (initial program input none).Succeeds k)
    (herror : ((initial program input none).afterRounds k).round.2 = .error error) :
    ∀ j < k, ((initial program input none).afterRounds j).round.2 = .ok true := by
  intro j hj
  have hholds := invariant_free.afterRounds (holds_initial program input) (n := j) fun i hi =>
    h i (Nat.lt_trans hi hj)
  obtain ⟨more, hmore⟩ := h j hj
  rcases invariant_free.round hholds with ⟨e', hround, -⟩ | ⟨e', fault, rest, hround, -⟩
  · by_cases hidle : e'.active = []
    · -- no round after this one would find a state
      have hnext : (initial program input none).afterRounds (j + 1) = e' := by
        rw [Explorer.afterRounds, hround]
      obtain ⟨d, rfl⟩ : ∃ d, k = j + 1 + d := ⟨k - (j + 1), by omega⟩
      rw [afterRounds_add, hnext, afterRounds_of_idle hidle, round_of_idle hidle] at herror
      cases herror
    · rw [hround]
      simp [hidle]
  · rw [hround] at hmore
    cases hmore

/-- **The round that fails is the least depth at which a step fails.** -/
theorem exists_failsIn_iff (k : Nat) :
    (∃ error, (initial program input none).FailsIn (k + 1) error) ↔
    (∃ c ∈ Situation.initial.after program input k, c.Fails program input) ∧
      ∀ j < k, ∀ c ∈ Situation.initial.after program input j, ¬ c.Fails program input := by
  rw [← succeeds_iff]
  constructor
  · rintro ⟨error, h⟩
    obtain ⟨hmore, herror⟩ := failsIn_iff.mp h
    have hsucceeds : (initial program input none).Succeeds k := fun j hj => ⟨true, hmore j hj⟩
    refine ⟨?_, hsucceeds⟩
    by_contra hnone
    obtain ⟨more, hok⟩ := hsucceeds.round_ok_iff.mpr fun c hc hfails => hnone ⟨c, hc, hfails⟩
    cases hok.symm.trans herror
  · rintro ⟨⟨c, hc, hfails⟩, hsucceeds⟩
    cases hresult : ((initial program input none).afterRounds k).round.2 with
    | ok more => exact absurd hfails (hsucceeds.round_ok_iff.mp ⟨more, hresult⟩ c hc)
    | error error => exact ⟨error, failsIn_iff.mpr ⟨more_of_error hsucceeds hresult, hresult⟩⟩

/-- **The oldest of the states that fail decides how.** -/
theorem oldest_of_failsIn {k : Nat} {error : ExecutionError}
    (h : (initial program input none).FailsIn (k + 1) error) :
    ∃ s ∈ ((initial program input none).afterRounds k).active, ∃ fault,
      s.path.step program input = .error fault ∧ error = .fault fault ∧
        ∀ t ∈ ((initial program input none).afterRounds k).active,
          t.path.situation.Fails program input → s.id.index ≤ t.id.index := by
  obtain ⟨hmore, herror⟩ := failsIn_iff.mp h
  have hsucceeds : (initial program input none).Succeeds k := fun j hj => ⟨true, hmore j hj⟩
  have hholds := invariant_free.afterRounds (holds_initial program input) hsucceeds
  rcases round_of_situations hholds with ⟨e', hround, -⟩ | ⟨e', fault, hround, hfirst⟩
  · rw [hround] at herror
    cases herror
  · rw [hround] at herror
    obtain ⟨before, s, after, hactive, hfine, hs⟩ := hfirst
    have hincreasing := (regular_afterRounds (regular_initial program input none) hsucceeds).2
    rw [hactive, List.map_append, List.map_cons] at hincreasing
    refine ⟨s, by simp [hactive], fault, hs, (Except.error.inj herror).symm, fun t ht hfails => ?_⟩
    rw [hactive, List.mem_append, List.mem_cons] at ht
    rcases ht with ht | rfl | ht
    · exact absurd hfails (hfine t ht)
    · exact Nat.le_refl _
    · have hafter := (List.pairwise_cons.mp (List.pairwise_append.mp hincreasing).2.1).1
      exact Nat.le_of_lt (hafter _ (List.mem_map_of_mem ht))

/-- **Rounds are depth.** After `k` rounds without a fault the active states are in the situations at
the ends of all ways of taking `k` steps. Exploration fails in round `k + 1` if and only if a step
fails at depth `k` and none at a smaller depth, and then it reports the fault of the failing state
with the smallest number. -/
theorem rounds_eq_depth (program : Program) (input : Input) (k : Nat) :
    let start := initial program input none
    ((∀ j < k, ∃ more, (start.afterRounds j).round.2 = .ok more) →
      (situations (start.afterRounds k).active).Perm
        (Situation.initial.after program input k)) ∧
    ((∃ error, start.FailsIn (k + 1) error) ↔
      (∃ c ∈ Situation.initial.after program input k, c.Fails program input) ∧
        ∀ j < k, ∀ c ∈ Situation.initial.after program input j, ¬ c.Fails program input) ∧
    ∀ error, start.FailsIn (k + 1) error →
      ∃ s ∈ (start.afterRounds k).active, ∃ fault, s.path.step program input = .error fault ∧
        error = .fault fault ∧
          ∀ t ∈ (start.afterRounds k).active, t.path.situation.Fails program input →
            s.id.index ≤ t.id.index :=
  ⟨situations_afterRounds, exists_failsIn_iff k, fun _ => oldest_of_failsIn⟩

/-- A branch in the second round, of whose two sides only the second cannot go on in the third. -/
theorem failsIn_third_round :
    let program := Program.ofList
      [⟨0, .set ⟨5⟩ "1"⟩, ⟨1, .branch .less ⟨5⟩ ⟨6⟩ ⟨7⟩⟩, ⟨2, .jump ⟨5⟩⟩, ⟨3, .ret⟩]
    let input : Input := ⟨1, "flag"⟩
    let start := initial program input none
    start.FailsIn 3 (.fault (.unsupported 2 (.jump ⟨5⟩))) ∧
      (situations (start.afterRounds 2).active).Perm (Situation.initial.after program input 2) ∧
      (∃ c ∈ Situation.initial.after program input 2, c.Fails program input) ∧
      ∃ s ∈ (start.afterRounds 2).active, s.path.step program input =
        .error (.unsupported 2 (.jump ⟨5⟩)) ∧
          ∀ t ∈ (start.afterRounds 2).active, t.path.situation.Fails program input →
            s.id.index ≤ t.id.index := by
  intro program input start
  have hfails : start.FailsIn 3 (.fault (.unsupported 2 (.jump ⟨5⟩))) := by
    refine ⟨⟨_, rfl⟩, fun n hn => ?_⟩
    match n, hn with
    | 0, _ => exact ⟨_, rfl⟩
    | 1, _ => exact ⟨_, rfl⟩
    | 2, _ => exact ⟨_, rfl⟩
  obtain ⟨hperm, hiff, holdest⟩ := rounds_eq_depth program input 2
  obtain ⟨s, hs, fault, hfault, herror, hmin⟩ := holdest _ hfails
  cases herror
  refine ⟨hfails, hperm fun j hj => ?_, (hiff.mp ⟨_, hfails⟩).1, s, hs, hfault, hmin⟩
  match j, hj with
  | 0, _ => exact ⟨_, rfl⟩
  | 1, _ => exact ⟨_, rfl⟩

end Explorer

end Lifter
