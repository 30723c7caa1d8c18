import Lifter.Proofs.Schedule

/-!
# The step budget

An exploration with a step budget takes the same steps, in the same order, as one without. It stops
earlier if the budget is used up before the run comes to an end, and then cuts off every state that
is alive, once.

* `Explorer.within`, `Explorer.Moment.within`: the same exploration under a budget.
* `Explorer.CutShort`, `Explorer.Grown.cutShort`: what cutting off all states alive leaves.
* `Explorer.Moment.after_within`: a run under a budget is a prefix of the run without one.
* **`Explorer.explore_within_budget`**: what becomes of an exploration under a budget.
-/

namespace Lifter.Explorer

open Moment

variable {e e' : Explorer} {m m' : Moment} {s : State} {budget : Nat}

/-! ## The same steps -/

/-- The same exploration under a budget. -/
def within (e : Explorer) (budget : Nat) : Explorer := { e with budget := some budget }

/-- The same moment under a budget. -/
def Moment.within (m : Moment) (budget : Nat) : Moment :=
  { m with explorer := m.explorer.within budget }

theorem settle_within {statements : Array Statement} {step : Step} :
    (e.within budget).settle s statements step =
      { e.settle s statements step with
        explorer := (e.settle s statements step).explorer.within budget } := by
  obtain ⟨emitted, path, outcome⟩ := step
  cases outcome <;> rfl

/-- An instruction takes no notice of the budget. -/
theorem advance_within {statements : Array Statement}
    (h : e.tree.node? s.node = some (.linear statements none)) :
    (e.within budget).advance s =
      (e.advance s).map fun turn => { turn with explorer := turn.explorer.within budget } := by
  have hw : (e.within budget).tree.node? s.node = some (.linear statements none) := h
  rw [advance_eq h, advance_eq hw]
  have hstep : s.path.step (e.within budget).program (e.within budget).input =
      s.path.step e.program e.input := rfl
  rw [hstep]
  cases s.path.step e.program e.input with
  | error fault => rfl
  | ok step => exact congrArg Except.ok settle_within

/-- An exploration without a budget, in which nothing has been cut off. -/
def Unbounded (_ : Growth Statement Comparison) (e : Explorer) (_ : List State) : Prop :=
  e.budget = none ∧ e.truncated = false

theorem invariant_unbounded : Invariant Unbounded where
  perm _ h := h
  active _ h := h
  settle := by
    rintro g e s rest statements ⟨emitted, path, outcome⟩ - - - - h
    cases outcome <;> exact h
  cutOff := by
    rintro g e s rest statements - - hx h
    simp [exhausted, h.1] at hx

theorem Moment.Sound.unbounded (h : m.Sound Unbounded) :
    m.explorer.budget = none ∧ m.explorer.truncated = false ∧ m.explorer.exhausted = false := by
  obtain ⟨g, -, hbudget, htruncated⟩ := h.holds
  exact ⟨hbudget, htruncated, by simp [exhausted, hbudget]⟩

theorem Moment.turnOver_within (m : Moment) :
    (m.within budget).turnOver = m.turnOver.within budget := by
  obtain ⟨e, waiting, survivors, spawned⟩ := m
  cases waiting <;> rfl

/-- **The next step under a budget** is the same, if the budget is not used up. -/
theorem Moment.step?_within (h : m.Sound Unbounded) :
    (m.within budget).step? = if budget ≤ m.explorer.steps then none
      else m.step?.map fun next => next.map (·.within budget) := by
  by_cases hx : budget ≤ m.explorer.steps
  · rw [if_pos hx]
    exact step?_of_exhausted (decide_eq_true hx)
  · rw [if_neg hx]
    cases hw : m.waiting with
    | nil =>
      have hw' : (m.within budget).waiting = [] := hw
      simp [step?, hw, hw']
    | cons s rest =>
      have hw' : (m.within budget).waiting = s :: rest := hw
      obtain ⟨g, hg, -⟩ := h.holds
      obtain ⟨statements, hnode⟩ := hg.open_node (s := s) (by simp [Moment.live, hw])
      rw [step?_of_waiting hw h.unbounded.2.2,
        step?_of_waiting hw' (decide_eq_false hx)]
      change some (((m.explorer.within budget).advance s).map _) = _
      rw [advance_within hnode]
      cases m.explorer.advance s with
      | error error => rfl
      | ok turn => exact congrArg (some ∘ Except.ok) (turnOver_within (m.pass rest turn))

/-- **A run under a budget is a prefix of the run without one.** -/
theorem Moment.after_within (h : m.Sound Unbounded) (hle : m.explorer.steps ≤ budget) (k : Nat) :
    (m.within budget).after k =
      if m.explorer.steps + k ≤ budget then (m.after k).map (·.within budget) else none := by
  induction k generalizing m with
  | zero =>
    rw [Nat.add_zero, if_pos hle]
    rfl
  | succ k ih =>
    unfold after
    rw [step?_within h]
    by_cases hx : budget ≤ m.explorer.steps
    · rw [if_pos hx, if_neg (by omega)]
    · rw [if_neg hx]
      rcases invariant_unbounded.step h with hs | ⟨next, hs, hnext, -, hsteps⟩ | ⟨fault, hs⟩
      · simp [hs]
      · simp only [hs, Option.map_some, Except.map]
        rw [ih hnext (by omega), hsteps, Nat.add_right_comm, Nat.add_assoc]
      · simp [hs, Except.map]

/-! ## Cutting off -/

/-- What cutting off the states in `live` makes of an exploration: each of them has its own node,
which gets one last statement, and comes to an end with one diagnostic. Everything else stays. -/
structure CutShort (e : Explorer) (live : List State) (e' : Explorer) : Prop where
  setting : SameSetting e e'
  steps : e'.steps = e.steps
  nextId : e'.nextId = e.nextId
  truncated : e'.truncated = (e.truncated || !live.isEmpty)
  finished : e'.finished.toList =
    e.finished.toList ++ live.map fun s => { s with status := .errored }
  diagnostics : e'.diagnostics.toList =
    e.diagnostics.toList ++ live.map fun s => ⟨s.id, s.path.address, .budgetExhausted⟩
  nodup : (live.map State.node).Nodup
  cut : ∀ s ∈ live, ∃ statements, e.tree.node? s.node = some (.linear statements none) ∧
    e'.tree.node? s.node = some (.linear (statements.push .explorationTruncated) none)
  kept : ∀ id, id ∉ live.map State.node → e'.tree.node? id = e.tree.node? id

theorem cutShort_nil (e : Explorer) : CutShort e [] e :=
  ⟨.refl e, rfl, rfl, by simp, by simp, by simp, by simp, by simp, by simp⟩

/-- Cutting off one more state before others. -/
theorem CutShort.cons {rest : List State} {statements : Array Statement}
    (hnode : e.tree.node? s.node = some (.linear statements none))
    (hs : s.node ∉ rest.map State.node) (h : CutShort (e.cutOff s statements) rest e') :
    CutShort e (s :: rest) e' where
  setting := sameSetting_cutOff.trans h.setting
  steps := h.steps
  nextId := h.nextId
  truncated := by
    rw [h.truncated]
    simp [cutOff, record]
  finished := by
    rw [h.finished]
    simp [cutOff, record]
  diagnostics := by
    rw [h.diagnostics]
    simp [cutOff, record]
  nodup := List.nodup_cons.mpr ⟨hs, h.nodup⟩
  cut t ht := by
    rcases List.mem_cons.mp ht with rfl | ht
    · refine ⟨statements, hnode, ?_⟩
      rw [h.kept _ hs]
      exact StatementTree.node?_replace_self (StatementTree.index_lt_of_node? hnode)
    · obtain ⟨before, hbefore, hafter⟩ := h.cut t ht
      have hne : t.node ≠ s.node := fun he => hs (he ▸ List.mem_map_of_mem ht)
      refine ⟨before, ?_, hafter⟩
      rw [← hbefore]
      exact (StatementTree.node?_replace_of_ne hne).symm
  kept id hid := by
    rw [List.map_cons, List.mem_cons, not_or] at hid
    rw [h.kept id hid.2]
    exact StatementTree.node?_replace_of_ne hid.1

/-- **Cutting off all states alive.** -/
theorem Grown.cutShort {g : Growth Statement Comparison} {live : List State} (h : Grown g e live) :
    ∃ e', e.truncateAll live = (e', .ok ()) ∧ CutShort e live e' := by
  induction live generalizing g e with
  | nil => exact ⟨e, rfl, cutShort_nil e⟩
  | cons s rest ih =>
    obtain ⟨statements, hnode⟩ := h.open_node List.mem_cons_self
    obtain ⟨e', hall, hcut⟩ := ih (h.cutOff statements)
    have hs : s.node ∉ rest.map State.node := fun hm =>
      h.node_not_mem (by rw [List.map_append]; exact List.mem_append_left _ hm)
    refine ⟨e', ?_, hcut.cons hnode hs⟩
    simp only [truncateAll, truncate_eq hnode, hall]

/-! ## Explorations under a budget -/

/-- The first moment of an exploration. -/
def Moment.first (program : Program) (input : Input) (budget : Option Nat) : Moment :=
  start (.initial program input budget)

variable {program : Program} {input : Input} {rounds k : Nat}

theorem first_within :
    first program input (some budget) = (first program input none).within budget := rfl

theorem holds_true_initial (limit : Option Nat) :
    Holds (fun _ _ _ => True) (initial program input limit) (initial program input limit).active :=
  ⟨_, grown_initial program input limit, trivial⟩

theorem sound_first : (first program input none).Sound Unbounded :=
  invariant_unbounded.start ⟨_, grown_initial program input none, rfl, rfl⟩

theorem after_first_within (k : Nat) :
    (first program input (some budget)).after k =
      if k ≤ budget then ((first program input none).after k).map (·.within budget) else none := by
  rw [first_within, after_within sound_first (Nat.zero_le _)]
  change (if 0 + k ≤ budget then _ else _) = _
  rw [Nat.zero_add]

theorem sound_after (h : (first program input none).after k = some m) :
    m.Sound Unbounded ∧ m.explorer.steps = k := by
  obtain ⟨hsound, -, hsteps⟩ := invariant_unbounded.after sound_first h
  exact ⟨hsound, hsteps.trans (Nat.zero_add k)⟩

/-- An exploration without a budget that completes has taken all its steps. -/
theorem exists_after_of_complete
    (h : (initial program input none).explore rounds = .complete e) :
    ∃ m, (first program input none).after e.steps = some m ∧ m.step? = none ∧ m.explorer = e ∧
      m.live = [] := by
  obtain ⟨k, m, hk, hstep, hall⟩ :=
    (complete_iff_halts invariant_true (holds_true_initial none)).mp ⟨rounds, h⟩
  obtain ⟨hsound, hsteps⟩ := sound_after hk
  have hlive : m.live = [] := by
    refine hsound.waiting ?_
    cases hw : m.waiting with
    | nil => rfl
    | cons s rest =>
      rw [step?_of_waiting hw hsound.unbounded.2.2] at hstep
      cases hstep
  rw [hlive] at hall
  cases hall
  exact ⟨m, hsteps ▸ hk, hstep, rfl, hlive⟩

theorem exists_after_of_failed {error : ExecutionError}
    (h : (initial program input none).explore rounds = .failed e error) :
    ∃ m, (first program input none).after e.steps = some m ∧ m.step? = some (.error error) ∧
      m.explorer = e := by
  obtain ⟨k, m, hk, hstep, rfl⟩ :=
    (failed_iff_halts invariant_true (holds_true_initial none)).mp ⟨rounds, h⟩
  exact ⟨m, (sound_after hk).2 ▸ hk, hstep, rfl⟩

theorem after_within_of_le (h : (first program input none).after k = some m) (hle : k ≤ budget) :
    (first program input (some budget)).after k = some (m.within budget) := by
  rw [after_first_within, if_pos hle, h]
  rfl

/-- **A budget that is used up** before the run is over. -/
theorem exists_complete_of_after (h : (first program input none).after budget = some m) :
    ∃ rounds e, (initial program input (some budget)).explore rounds = .complete e ∧
      CutShort (m.explorer.within budget) m.live e := by
  obtain ⟨hsound, hsteps⟩ := sound_after h
  obtain ⟨g, hg, -⟩ := hsound.holds
  have hg' : Grown g (m.explorer.within budget) m.live := ⟨hg.spans, hg.tips, hg.ended, hg.nodup⟩
  obtain ⟨e, hall, hcut⟩ := hg'.cutShort
  have hstep : (m.within budget).step? = none := by
    rw [step?_within hsound, if_pos (Nat.le_of_eq hsteps.symm)]
  obtain ⟨rounds, hrounds⟩ := (complete_iff_halts invariant_true (holds_true_initial _)).mpr
    ⟨budget, m.within budget, after_within_of_le h (Nat.le_refl _), hstep, hall⟩
  exact ⟨rounds, e, hrounds, hcut⟩

/-- An exploration that completes within the budget. -/
theorem exists_complete_within (h : (initial program input none).explore rounds = .complete e)
    (hle : e.steps ≤ budget) :
    e.truncated = false ∧ ∃ rounds',
      (initial program input (some budget)).explore rounds' = .complete (e.within budget) := by
  obtain ⟨m, hm, hstep, rfl, hlive⟩ := exists_after_of_complete h
  obtain ⟨hsound, -⟩ := sound_after hm
  refine ⟨hsound.unbounded.2.1, ?_⟩
  refine (complete_iff_halts invariant_true (holds_true_initial _)).mpr
    ⟨m.explorer.steps, m.within budget, after_within_of_le hm hle, ?_, ?_⟩
  · rw [step?_within hsound, hstep, Option.map_none, ite_self]
  · change (m.explorer.within budget).truncateAll m.live = _
    rw [hlive]
    rfl

/-- An exploration that fails within the budget. -/
theorem exists_failed_within {error : ExecutionError}
    (h : (initial program input none).explore rounds = .failed e error) (hlt : e.steps < budget) :
    ∃ rounds',
      (initial program input (some budget)).explore rounds' = .failed (e.within budget) error := by
  obtain ⟨m, hm, hstep, rfl⟩ := exists_after_of_failed h
  obtain ⟨hsound, -⟩ := sound_after hm
  refine (failed_iff_halts invariant_true (holds_true_initial _)).mpr
    ⟨m.explorer.steps, m.within budget, after_within_of_le hm (Nat.le_of_lt hlt), ?_, rfl⟩
  rw [step?_within hsound, if_neg (Nat.not_le.mpr hlt), hstep]
  rfl

/-- **An exploration under a budget is a prefix of the one without.** It takes the same steps, as
long as the budget lasts. If that is long enough for the exploration to complete or to fail, it ends
the same. Otherwise it completes, and every state that is alive is cut off. -/
theorem explore_within_budget (program : Program) (input : Input) (budget : Nat) :
    (∀ k, (first program input (some budget)).after k =
      if k ≤ budget then ((first program input none).after k).map (·.within budget) else none) ∧
    (∀ rounds e, (initial program input none).explore rounds = .complete e →
      (∃ m, (first program input none).after e.steps = some m ∧ m.step? = none ∧
        m.explorer = e) ∧
      (e.steps ≤ budget → e.truncated = false ∧ ∃ rounds',
        (initial program input (some budget)).explore rounds' = .complete (e.within budget))) ∧
    (∀ m, (first program input none).after budget = some m → m.step? ≠ none →
      ∃ rounds e, (initial program input (some budget)).explore rounds = .complete e ∧
        CutShort (m.explorer.within budget) m.live e ∧ e.steps = budget ∧ e.truncated = true) ∧
    (∀ rounds e error, (initial program input none).explore rounds = .failed e error →
      (∃ m, (first program input none).after e.steps = some m ∧
        m.step? = some (.error error) ∧ m.explorer = e) ∧
      (e.steps < budget → ∃ rounds',
        (initial program input (some budget)).explore rounds' = .failed (e.within budget) error) ∧
      (budget ≤ e.steps → ∃ rounds' e',
        (initial program input (some budget)).explore rounds' = .complete e')) := by
  refine ⟨after_first_within, fun rounds e h => ?_, fun m h hstep => ?_, fun rounds e error h => ?_⟩
  · obtain ⟨m, hm, hstep, he, -⟩ := exists_after_of_complete h
    exact ⟨⟨m, hm, hstep, he⟩, exists_complete_within h⟩
  · obtain ⟨rounds, e, hrounds, hcut⟩ := exists_complete_of_after h
    refine ⟨rounds, e, hrounds, hcut, hcut.steps.trans (sound_after h).2, ?_⟩
    have hlive : m.live ≠ [] := fun hnil => hstep (step?_of_live_eq_nil hnil)
    simp [hcut.truncated, hlive]
  · obtain ⟨m, hm, hstep, he⟩ := exists_after_of_failed h
    refine ⟨⟨m, hm, hstep, he⟩, exists_failed_within h, fun hle => ?_⟩
    obtain ⟨m', hm'⟩ := exists_after_of_le hm hle
    obtain ⟨rounds', e', hrounds, -⟩ := exists_complete_of_after hm'
    exact ⟨rounds', e', hrounds⟩

/-- A budget that is used up at a branch: the two new states are cut off before their first step. -/
theorem cutShort_at_branch :
    let program := Program.ofList
      [⟨0, .set ⟨5⟩ "0"⟩, ⟨1, .branch .less ⟨5⟩ ⟨6⟩ ⟨7⟩⟩, ⟨2, .ret⟩]
    ∃ m, (first program ⟨1, "flag"⟩ none).after 2 = some m ∧ m.live.length = 2 ∧
      ∃ rounds e, (initial program ⟨1, "flag"⟩ (some 2)).explore rounds = .complete e ∧
        CutShort (m.explorer.within 2) m.live e ∧ e.steps = 2 ∧ e.truncated = true :=
  ⟨_, rfl, by decide +kernel, (explore_within_budget _ _ 2).2.2.1 _ rfl fun h =>
    absurd (congrArg Option.isNone h) (by decide +kernel)⟩

end Lifter.Explorer
