import Lifter.Proofs.Round

/-!
# Exploration step by step

Rounds are made of single steps: one state runs one instruction. A **moment** is an exploration
between two such steps, and a run is the sequence of its moments. A run comes to a halt when no state
is alive, when a step fails, or when the budget is used up. How `explore` ends can be read off the
moment at which the run halts: the states that are alive then are cut off.

* `Explorer.Moment`, `Explorer.Moment.step?`, `Explorer.Moment.after`: moments, the next step, and
  the moment after so many steps.
* `Explorer.Invariant.step`: a step keeps an invariant; `Explorer.Moment.Sound.exists_settle` says
  what it does.
* **`Explorer.explore_eq_iff_ends`**, with `Explorer.complete_iff_halts` and
  `Explorer.failed_iff_halts`: `explore` in terms of moments.
-/

namespace Lifter.Explorer

/-! ## Moments -/

/-- An exploration in the middle of a round. -/
structure Moment where
  explorer : Explorer
  /-- The states that have not had their turn in this round. -/
  waiting : List State
  /-- The states that have had it and are still active. -/
  survivors : Array State
  /-- The states that others were split into in this round. -/
  spawned : Array State

namespace Moment

/-- The beginning of a round. -/
def start (e : Explorer) : Moment := ⟨{ e with active := [] }, e.active, #[], #[]⟩

/-- The states that are alive, in the order in which the end of the budget finds them. -/
def live (m : Moment) : List State := m.waiting ++ (m.survivors.toList ++ m.spawned.toList)

/-- After a turn that leaves `rest` waiting, in the same round. -/
def pass (m : Moment) (rest : List State) (turn : Turn) : Moment where
  explorer := turn.explorer
  waiting := rest
  survivors := m.survivors ++ turn.survivors
  spawned := m.spawned ++ turn.spawned

/-- When all states have had their turn, those alive wait for the next round. -/
def turnOver (m : Moment) : Moment :=
  match m.waiting with
  | [] => ⟨m.explorer, m.live, #[], #[]⟩
  | _ :: _ => m

/-- The next step: the first waiting state runs one instruction. There is none if no state is waiting
or the budget is used up. -/
def step? (m : Moment) : Option (Except ExecutionError Moment) :=
  match m.waiting with
  | [] => none
  | s :: rest =>
    if m.explorer.exhausted then none
    else some ((m.explorer.advance s).map fun turn => (m.pass rest turn).turnOver)

/-- The moment after `k` steps, if as many can be taken. -/
def after (m : Moment) : (k : Nat) → Option Moment
  | 0 => some m
  | k + 1 =>
    match m.step? with
    | some (.ok next) => next.after k
    | _ => none

variable {m m' : Moment} {s : State} {rest : List State}

@[simp] theorem explorer_turnOver (m : Moment) : m.turnOver.explorer = m.explorer := by
  obtain ⟨e, waiting, survivors, spawned⟩ := m
  cases waiting <;> rfl

@[simp] theorem live_turnOver (m : Moment) : m.turnOver.live = m.live := by
  obtain ⟨e, waiting, survivors, spawned⟩ := m
  cases waiting <;> simp [turnOver, live]

theorem turnOver_start (e : Explorer) : (start e).turnOver = start e := by
  cases h : e.active <;> simp [start, turnOver, live, h]

@[simp] theorem live_start (e : Explorer) : (start e).live = e.active := by simp [start, live]

theorem step?_of_exhausted (h : m.explorer.exhausted = true) : m.step? = none := by
  unfold step?
  split <;> simp [h]

theorem step?_of_live_eq_nil (h : m.live = []) : m.step? = none := by
  simp [step?, (List.append_eq_nil_iff.mp h).1]

theorem step?_of_waiting (h : m.waiting = s :: rest) (hx : m.explorer.exhausted = false) :
    m.step? = some ((m.explorer.advance s).map fun turn => (m.pass rest turn).turnOver) := by
  simp [step?, h, hx]

theorem after_of_step (h : m.step? = some (.ok m')) (k : Nat) : m.after (k + 1) = m'.after k := by
  simp [after, h]

theorem after_add {j : Nat} (h : m.after j = some m') (k : Nat) :
    m.after (j + k) = m'.after k := by
  induction j generalizing m with
  | zero =>
    cases h
    rw [Nat.zero_add]
  | succ j ih =>
    rw [Nat.add_right_comm]
    unfold after at h
    split at h
    · rename_i next hstep
      rw [after_of_step hstep]
      exact ih h
    · cases h

theorem exists_after_of_le {j k : Nat} (h : m.after k = some m') (hle : j ≤ k) :
    ∃ earlier, m.after j = some earlier := by
  induction j generalizing m k with
  | zero => exact ⟨m, rfl⟩
  | succ j ih =>
    obtain ⟨k, rfl⟩ : ∃ i, k = i + 1 := ⟨k - 1, by omega⟩
    unfold after at h
    split at h
    · rename_i next hstep
      rw [after_of_step hstep]
      exact ih h (by omega)
    · cases h

/-- A run does not go on from a moment at which it halts. -/
def Halts (m : Moment) : Prop := ∀ next, m.step? ≠ some (.ok next)

theorem le_of_after {j k : Nat} {m'' : Moment} (hj : m.after j = some m') (hstop : m'.Halts)
    (hk : m.after k = some m'') : k ≤ j := by
  by_contra hlt
  obtain ⟨d, rfl⟩ : ∃ d, k = j + (d + 1) := ⟨k - j - 1, by omega⟩
  rw [after_add hj] at hk
  unfold after at hk
  split at hk
  · exact hstop _ ‹_›
  · cases hk

end Moment

open Moment

/-! ## Invariants step by step -/

/-- An invariant holds at a moment of a round, and a round is not over while states are alive. -/
structure Moment.Sound (P : Growth Statement Comparison → Explorer → List State → Prop)
    (m : Moment) : Prop where
  holds : Holds P m.explorer m.live
  active : m.explorer.active = []
  waiting : m.waiting = [] → m.live = []

variable {P : Growth Statement Comparison → Explorer → List State → Prop} {e e' : Explorer}
  {m m' : Moment} {s : State} {rest live : List State}

theorem Invariant.start (hP : Invariant P) (h : Holds P e e.active) : (start e).Sound P where
  holds := by
    rw [live_start]
    exact h.active hP []
  active := rfl
  waiting hw := by rwa [live_start]

/-- **A turn keeps an invariant**, seen from the middle of a round. -/
theorem Invariant.pass (hP : Invariant P) (h : m.Sound P) (hw : m.waiting = s :: rest)
    (hx : m.explorer.exhausted = false) :
    (∃ turn, m.explorer.advance s = .ok turn ∧ (m.pass rest turn).turnOver.Sound P ∧
      SameSetting m.explorer turn.explorer ∧ turn.explorer.steps = m.explorer.steps + 1) ∨
    ∃ fault, m.explorer.advance s = .error (.fault fault) := by
  obtain ⟨g, hg, hp⟩ := h.holds
  have hlive : m.live = s :: (rest ++ (m.survivors.toList ++ m.spawned.toList)) := by
    simp [Moment.live, hw]
  rw [hlive] at hg hp
  obtain ⟨statements, hnode⟩ := hg.open_node List.mem_cons_self
  rw [advance_eq hnode]
  cases hstep : s.path.step m.explorer.program m.explorer.input with
  | error fault => exact Or.inr ⟨fault, rfl⟩
  | ok step =>
    refine Or.inl ⟨_, rfl, ⟨?_, ?_, ?_⟩, sameSetting_settle, steps_settle⟩
    · have hperm := (m.explorer.settle s statements step).perm_live rest m.survivors m.spawned
      rw [explorer_turnOver, live_turnOver]
      exact ⟨_, (hg.settle statements step).perm hperm,
        hP.perm hperm (hP.settle hg hnode hx hstep hp)⟩
    · rw [explorer_turnOver]
      exact sameSetting_settle.active.trans h.active
    · cases rest with
      | nil => simp [Moment.pass, turnOver, Moment.live]
      | cons t rest => simp [Moment.pass, turnOver]

/-- **A step keeps an invariant.** It is counted, and it can fail only by a fault. -/
theorem Invariant.step (hP : Invariant P) (h : m.Sound P) :
    m.step? = none ∨
    (∃ m', m.step? = some (.ok m') ∧ m'.Sound P ∧ SameSetting m.explorer m'.explorer ∧
      m'.explorer.steps = m.explorer.steps + 1) ∨
    ∃ fault, m.step? = some (.error (.fault fault)) := by
  cases hw : m.waiting with
  | nil => exact Or.inl (by simp [step?, hw])
  | cons s rest =>
    cases hx : m.explorer.exhausted with
    | true => exact Or.inl (step?_of_exhausted hx)
    | false =>
      right
      rw [step?_of_waiting hw hx]
      rcases hP.pass h hw hx with ⟨turn, hturn, hsound, hsame, hsteps⟩ | ⟨fault, hturn⟩
      · rw [hturn]
        refine Or.inl ⟨_, rfl, hsound, ?_, ?_⟩
        · rwa [explorer_turnOver]
        · rwa [explorer_turnOver]
      · rw [hturn]
        exact Or.inr ⟨fault, rfl⟩

/-- **What a step does**, if it succeeds: the turn of the first waiting state. -/
theorem Moment.Sound.exists_settle (h : m.Sound P) (hstep : m.step? = some (.ok m')) :
    ∃ s rest statements step, m.waiting = s :: rest ∧ m.explorer.exhausted = false ∧
      m.explorer.tree.node? s.node = some (.linear statements none) ∧
        s.path.step m.explorer.program m.explorer.input = .ok step ∧
          m' = (m.pass rest (m.explorer.settle s statements step)).turnOver := by
  cases hw : m.waiting with
  | nil => simp [step?, hw] at hstep
  | cons s rest =>
    cases hx : m.explorer.exhausted with
    | true => cases (step?_of_exhausted hx).symm.trans hstep
    | false =>
      obtain ⟨g, hg, -⟩ := h.holds
      obtain ⟨statements, hnode⟩ := hg.open_node (s := s) (by simp [Moment.live, hw])
      rw [step?_of_waiting hw hx, advance_eq hnode] at hstep
      cases hrun : s.path.step m.explorer.program m.explorer.input with
      | error fault => simp [hrun, Except.map] at hstep
      | ok step =>
        simp only [hrun, Except.map, Option.some.injEq, Except.ok.injEq] at hstep
        exact ⟨s, rest, statements, step, rfl, rfl, hnode, hrun, hstep.symm⟩

theorem Invariant.after (hP : Invariant P) (h : m.Sound P) {k : Nat}
    (hk : m.after k = some m') :
    m'.Sound P ∧ SameSetting m.explorer m'.explorer ∧
      m'.explorer.steps = m.explorer.steps + k := by
  induction k generalizing m with
  | zero =>
    cases hk
    exact ⟨h, .refl _, rfl⟩
  | succ k ih =>
    rcases hP.step h with hstep | ⟨next, hstep, hsound, hsame, hsteps⟩ | ⟨fault, hstep⟩
    · simp [Moment.after, hstep] at hk
    · rw [after_of_step hstep] at hk
      obtain ⟨hs, hsame', hsteps'⟩ := ih hsound hk
      refine ⟨hs, hsame.trans hsame', ?_⟩
      rw [hsteps', hsteps]
      omega
    · simp [Moment.after, hstep] at hk

/-! ## Rounds as runs of steps -/

theorem exists_of_truncateAll_append (h : e.truncateAll (live ++ rest) = (e', .ok ())) :
    ∃ next, e.truncateAll live = (next, .ok ()) ∧ next.truncateAll rest = (e', .ok ()) := by
  induction live generalizing e with
  | nil => exact ⟨e, rfl, h⟩
  | cons s live ih =>
    simp only [List.cons_append, Explorer.truncateAll] at h ⊢
    split at h
    · cases h
    · exact ih h

theorem exhausted_of_truncate (h : e.truncate s = .ok e') : e'.exhausted = e.exhausted := by
  unfold Explorer.truncate at h
  cases ha : e.tree.append s.node PathError.budgetExhausted.placeholder with
  | error error => simp [ha, bind, Except.bind] at h
  | ok tree =>
    simp only [ha, bind, Except.bind, pure, Except.pure] at h
    cases h
    rfl

/-- A sweep without budget only cuts off. -/
theorem sweep_of_exhausted (hx : e.exhausted = true) {waiting : List State}
    (h : e.truncateAll waiting = (e', .ok ())) (survivors spawned : Array State) :
    e.sweep survivors spawned waiting = (e', .ok (survivors.toList ++ spawned.toList)) ∧
      e'.exhausted = true := by
  induction waiting generalizing e with
  | nil =>
    cases h
    exact ⟨rfl, hx⟩
  | cons s rest ih =>
    simp only [Explorer.truncateAll] at h
    split at h
    · cases h
    · rename_i next hnext
      have hvisit : e.visit s = .ok ⟨next, [], []⟩ := by
        simp only [Explorer.visit, hx, if_true, hnext]
        rfl
      simp only [Explorer.sweep, hvisit, Array.appendList_nil]
      exact ih ((exhausted_of_truncate hnext).trans hx) h

namespace Moment

/-- What is left of a round from its middle. -/
def restOfRound (m : Moment) : Explorer × Except ExecutionError Bool :=
  match m.explorer.sweep m.survivors m.spawned m.waiting with
  | (e, .error error) => (e, .error error)
  | (e, .ok remaining) =>
    if e.exhausted then
      match e.truncateAll remaining with
      | (e, .error error) => (e, .error (.tree error))
      | (e, .ok ()) => (e, .ok false)
    else ({ e with active := remaining }, .ok !remaining.isEmpty)

theorem round_eq_restOfRound (e : Explorer) : e.round = (start e).restOfRound := rfl

/-- A run that halts here completes: it takes no further step, and what is alive is cut off. -/
def Completes (m : Moment) (e : Explorer) : Prop :=
  m.step? = none ∧ m.explorer.truncateAll m.live = (e, .ok ())

/-- A run that halts here fails: its next step does. -/
def Fails (m : Moment) (e : Explorer) (error : ExecutionError) : Prop :=
  m.step? = some (.error error) ∧ m.explorer = e

/-- The moment at which a round ends with a result. -/
def Closes (m : Moment) : Explorer × Except ExecutionError Bool → Prop
  | (e, .error error) => m.Fails e error
  | (e, .ok true) => m = start e
  | (e, .ok false) => m.Completes e

theorem restOfRound_of_exhausted (hx : m.explorer.exhausted = true)
    (h : m.explorer.truncateAll m.live = (e, .ok ())) : m.restOfRound = (e, .ok false) := by
  obtain ⟨next, hwaiting, hremaining⟩ := exists_of_truncateAll_append h
  obtain ⟨hsweep, hnext⟩ := sweep_of_exhausted hx hwaiting m.survivors m.spawned
  simp [restOfRound, hsweep, hnext, hremaining]

theorem restOfRound_of_nil (hw : m.waiting = []) (hx : m.explorer.exhausted = false) :
    m.restOfRound = ({ m.explorer with active := m.live }, .ok !m.live.isEmpty) := by
  simp [restOfRound, hw, Explorer.sweep, hx, live]

theorem restOfRound_of_turn (hw : m.waiting = s :: rest) (hx : m.explorer.exhausted = false)
    {turn : Turn} (hturn : m.explorer.advance s = .ok turn) :
    m.restOfRound = (m.pass rest turn).restOfRound := by
  simp [restOfRound, hw, Explorer.sweep, Explorer.visit, hx, hturn, pass]

theorem restOfRound_of_error (hw : m.waiting = s :: rest) (hx : m.explorer.exhausted = false)
    {error : ExecutionError} (hturn : m.explorer.advance s = .error error) :
    m.restOfRound = (m.explorer, .error error) := by
  simp [restOfRound, hw, Explorer.sweep, Explorer.visit, hx, hturn]

theorem closes_of_exhausted (hP : Invariant P) (h : m.turnOver.Sound P)
    (hx : m.explorer.exhausted = true) :
    m.turnOver.Closes m.restOfRound ∧ m.restOfRound.2.toOption = some false := by
  have hx' : m.turnOver.explorer.exhausted = true := by rwa [explorer_turnOver]
  obtain ⟨e, hall, -⟩ := hP.truncateAll hx' h.holds
  rw [restOfRound_of_exhausted hx (by simpa using hall)]
  exact ⟨⟨step?_of_exhausted hx', hall⟩, rfl⟩

theorem closes_of_nil (hP : Invariant P) (h : m.turnOver.Sound P) (hw : m.waiting = []) :
    m.turnOver.Closes m.restOfRound := by
  cases hx : m.explorer.exhausted with
  | true => exact (closes_of_exhausted hP h hx).1
  | false =>
    have hidle : { m.explorer with active := [] } = m.explorer := by
      rw [← explorer_turnOver, ← h.active]
    have hturn : m.turnOver = ⟨m.explorer, m.live, #[], #[]⟩ := by simp only [turnOver, hw]
    rw [restOfRound_of_nil hw hx, hturn]
    cases hlive : m.live with
    | nil =>
      refine ⟨rfl, ?_⟩
      change (m.explorer, _) = ({ m.explorer with active := [] }, _)
      rw [hidle]
    | cons s rest =>
      change _ = Moment.mk { m.explorer with active := [] } _ _ _
      rw [hidle]

/-- **A round is a run of steps.** If states are active after it, at least one step has been taken
for each that was waiting. -/
theorem exists_after_closes (hP : Invariant P) (h : m.turnOver.Sound P) :
    ∃ k m', m.turnOver.after k = some m' ∧ m'.Closes m.restOfRound ∧
      (m.restOfRound.2.toOption = some true → m.waiting.length ≤ k) := by
  obtain ⟨waiting, hw⟩ : ∃ waiting, m.waiting = waiting := ⟨_, rfl⟩
  induction waiting generalizing m with
  | nil => exact ⟨0, _, rfl, closes_of_nil hP h hw, by simp [hw]⟩
  | cons s rest ih =>
    cases hx : m.explorer.exhausted with
    | true =>
      obtain ⟨hcloses, hfalse⟩ := closes_of_exhausted hP h hx
      exact ⟨0, _, rfl, hcloses, by simp [hfalse]⟩
    | false =>
      have hturn : m.turnOver = m := by simp only [turnOver, hw]
      rw [hturn] at h ⊢
      rcases hP.pass h hw hx with ⟨turn, hadvance, hsound, -⟩ | ⟨fault, hadvance⟩
      · -- the turn of `s` is the first step of the run, the rest of the round is the others
        obtain ⟨k, m', hk, hcloses, hle⟩ := ih hsound rfl
        have hstep : m.step? = some (.ok (m.pass rest turn).turnOver) := by
          rw [step?_of_waiting hw hx, hadvance]
          rfl
        rw [restOfRound_of_turn hw hx hadvance]
        refine ⟨k + 1, m', by rw [after_of_step hstep, hk], hcloses, fun htrue => ?_⟩
        have := hle htrue
        simp only [pass, hw, List.length_cons] at this ⊢
        omega
      · have hstep : m.step? = some (.error (.fault fault)) := by
          rw [step?_of_waiting hw hx, hadvance]
          rfl
        rw [restOfRound_of_error hw hx hadvance]
        refine ⟨0, m, rfl, ⟨hstep, rfl⟩, ?_⟩
        rintro ⟨⟩

end Moment

/-! ## Explorations as runs of steps -/

/-- The moment at which an exploration ends. -/
def Moment.Ends (m : Moment) : Exploration → Prop
  | .complete e => m.Completes e
  | .failed e error => m.Fails e error
  | .unfinished e => m = start e

/-- **An exploration is a run of steps.** Every round that leaves states active takes at least
one. -/
theorem exists_after_ends (hP : Invariant P) (h : Holds P e e.active) (rounds : Nat) :
    ∃ k m, (start e).after k = some m ∧ m.Ends (e.explore rounds) ∧
      (∀ e', e.explore rounds = .unfinished e' → rounds ≤ k) := by
  induction rounds generalizing e with
  | zero => exact ⟨0, _, rfl, rfl, fun _ _ => Nat.le_refl _⟩
  | succ rounds ih =>
    have hsound := hP.start h
    obtain ⟨j, m, hj, hcloses, hle⟩ :=
      exists_after_closes hP (m := start e) (by rwa [turnOver_start])
    rw [turnOver_start] at hj
    rw [← round_eq_restOfRound] at hcloses hle
    rcases hround : e.round with ⟨e', error | _ | _⟩
    all_goals rw [hround] at hcloses hle; simp only [explore, hround]
    · exact ⟨j, m, hj, hcloses, by rintro _ ⟨⟩⟩
    · exact ⟨j, m, hj, hcloses, by rintro _ ⟨⟩⟩
    · obtain rfl : m = start e' := hcloses
      have hnext : Holds P e' e'.active :=
        live_start e' ▸ (hP.after hsound hj).1.holds.active hP e'.active
      have hpos : 0 < j := by
        refine Nat.lt_of_lt_of_le (List.length_pos_iff.mpr fun hnil => ?_) (hle rfl)
        have hfalse := round_of_idle hnil
        rw [hround] at hfalse
        cases hfalse
      obtain ⟨k, m, hk, hends, hrounds⟩ := ih hnext
      refine ⟨j + k, m, by rw [after_add hj, hk], hends, fun e'' he'' => ?_⟩
      have := hrounds e'' he''
      omega

/-- An exploration that will not be taken up again. -/
def Exploration.Over : Exploration → Prop
  | .complete _ | .failed _ _ => True
  | .unfinished _ => False

theorem Moment.Ends.halts {x : Exploration} (h : m.Ends x) (hx : x.Over) : m.Halts := by
  intro next hnext
  cases x with
  | complete e => cases h.1.symm.trans hnext
  | failed e error => cases h.1.symm.trans hnext
  | unfinished e => exact hx

theorem Moment.Ends.unique {x y : Exploration} (h : m.Ends x) (h' : m.Ends y) (hx : x.Over)
    (hy : y.Over) : x = y := by
  cases x with
  | complete e =>
    cases y with
    | complete e' =>
      cases h.2.symm.trans h'.2
      rfl
    | failed e' error => cases h.1.symm.trans h'.1
    | unfinished e' => exact hy.elim
  | failed e error =>
    cases y with
    | complete e' => cases h.1.symm.trans h'.1
    | failed e' error' =>
      cases h.1.symm.trans h'.1
      cases h.2.symm.trans h'.2
      rfl
    | unfinished e' => exact hy.elim
  | unfinished e => exact hx.elim

/-- **A run that halts is explored to its end.** -/
theorem exists_ends_of_halts (hP : Invariant P) (h : Holds P e e.active) {k : Nat}
    (hk : (start e).after k = some m) (hhalts : m.Halts) :
    ∃ rounds, m.Ends (e.explore rounds) ∧ (e.explore rounds).Over := by
  -- with more rounds than steps in the run, no state can be left active
  obtain ⟨j, m', hj, hends, hrounds⟩ := exists_after_ends hP h (k + 1)
  have hle := le_of_after hk hhalts hj
  have hover : (e.explore (k + 1)).Over := by
    cases hexplore : e.explore (k + 1) with
    | complete e' => trivial
    | failed e' error => trivial
    | unfinished e' =>
      have := hrounds e' hexplore
      omega
  obtain rfl : j = k := Nat.le_antisymm hle (le_of_after hj (hends.halts hover) hk)
  obtain rfl : m' = m := Option.some.inj (hj.symm.trans hk)
  exact ⟨j + 1, hends, hover⟩

/-- **How an exploration ends** is seen at the moment at which its run halts. -/
theorem explore_eq_iff_ends (hP : Invariant P) (h : Holds P e e.active) {x : Exploration}
    (hx : x.Over) :
    (∃ rounds, e.explore rounds = x) ↔ ∃ k m, (start e).after k = some m ∧ m.Ends x := by
  constructor
  · rintro ⟨rounds, rfl⟩
    obtain ⟨k, m, hk, hends, -⟩ := exists_after_ends hP h rounds
    exact ⟨k, m, hk, hends⟩
  · rintro ⟨k, m, hk, hends⟩
    obtain ⟨rounds, hends', hover⟩ := exists_ends_of_halts hP h hk (hends.halts hx)
    exact ⟨rounds, hends'.unique hends hover hx⟩

/-- **When an exploration completes.** -/
theorem complete_iff_halts (hP : Invariant P) (h : Holds P e e.active) :
    (∃ rounds, e.explore rounds = .complete e') ↔
      ∃ k m, (start e).after k = some m ∧ m.Completes e' :=
  explore_eq_iff_ends hP h trivial

/-- **When an exploration fails.** -/
theorem failed_iff_halts (hP : Invariant P) (h : Holds P e e.active) {error : ExecutionError} :
    (∃ rounds, e.explore rounds = .failed e' error) ↔
      ∃ k m, (start e).after k = some m ∧ m.Fails e' error :=
  explore_eq_iff_ends hP h trivial

end Lifter.Explorer
