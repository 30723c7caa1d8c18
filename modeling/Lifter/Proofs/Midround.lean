import Lifter.Proofs.Schedule

/-!
# In the middle of a round

What happens in a round is best said of the single turn, and a turn finds the exploration as the
turns before it in the same round have left it. `Explorer.Underway` lists the moments that a round
passes through, turn by turn, whether a turn runs an instruction or cuts off its state.

* `Explorer.Underway`: the moments of a round.
* `Explorer.Underway.round_eq`: from each of them the rest of the round is the same round.
* `Explorer.Underway.suffix`: the states still waiting are the last of the active ones.
* `Explorer.Underway.holds`: an invariant holds at every moment.
* **`Explorer.Underway.round_of_nil`**, **`Explorer.Underway.exists_of_error`**: how a round ends
  when all turns have been taken, and how it fails.
* `Explorer.Reachable.holds`: what holds of every exploration between two rounds.
* `Explorer.Underway.open_node`: what a state finds at its turn.
-/

namespace Lifter.Explorer

open Moment

/-- The moments of a round of `e`. -/
inductive Underway (e : Explorer) : Moment → Prop
  | start : Underway e (start e)
  | turn {m : Moment} {s : State} {rest : List State} {turn : Turn} : Underway e m →
      m.waiting = s :: rest → m.explorer.visit s = .ok turn → Underway e (m.pass rest turn)

namespace Underway

variable {P : Growth Statement Comparison → Explorer → List State → Prop} {e e' : Explorer}
  {m : Moment} {s : State} {rest : List State}

theorem suffix (h : Underway e m) : m.waiting <:+ e.active := by
  induction h with
  | start => exact List.suffix_refl _
  | turn _ hw _ ih =>
    rw [hw] at ih
    exact (List.suffix_cons _ _).trans ih

/-- What a round does from one of its moments on. -/
theorem round_eq (h : Underway e m) : e.round = m.restOfRound := by
  induction h with
  | start => rfl
  | turn _ hw hvisit ih =>
    rw [ih]
    simp only [restOfRound, hw, sweep, hvisit, Moment.pass]

/-- **An invariant holds at every moment of a round.** -/
theorem holds (hP : Invariant P) (he : Holds P e e.active) (h : Underway e m) :
    Holds P m.explorer m.live ∧ m.explorer.active = [] := by
  induction h with
  | start =>
    rw [live_start]
    exact ⟨he.active hP [], rfl⟩
  | @turn m s rest turn _ hw hvisit ih =>
    obtain ⟨hholds, hactive⟩ := ih
    rw [live, hw] at hholds
    rcases hP.visit hholds with ⟨turn', hturn, hsame, g, hg, hp⟩ | ⟨fault, hfault, -⟩
    · obtain rfl : turn = turn' := Except.ok.inj (hvisit.symm.trans hturn)
      have hlive := turn.perm_live rest m.survivors m.spawned
      exact ⟨⟨g, hg.perm hlive, hP.perm hlive hp⟩, hsame.active.trans hactive⟩
    · cases hvisit.symm.trans hfault

/-- From any moment on, a round takes all turns or comes to one that fails. -/
theorem exists_rest (h : Underway e m) :
    (∃ last, Underway e last ∧ last.waiting = []) ∨
    ∃ last s rest error, Underway e last ∧ last.waiting = s :: rest ∧
      last.explorer.visit s = .error error := by
  obtain ⟨waiting, hw⟩ : ∃ waiting, m.waiting = waiting := ⟨_, rfl⟩
  induction waiting generalizing m with
  | nil => exact Or.inl ⟨m, h, hw⟩
  | cons s rest ih =>
    cases hvisit : m.explorer.visit s with
    | error error => exact Or.inr ⟨m, s, rest, error, h, hw, hvisit⟩
    | ok turn => exact ih (h.turn hw hvisit) rfl

/-- When a turn fails, so does the round, and nothing happens after that. -/
theorem round_of_error (h : Underway e m) (hw : m.waiting = s :: rest) {error : ExecutionError}
    (hvisit : m.explorer.visit s = .error error) : e.round = (m.explorer, .error error) := by
  rw [h.round_eq]
  simp only [restOfRound, hw, sweep, hvisit]

/-- **When all turns have been taken**, the states alive are cut off or wait for the next round. -/
theorem round_of_nil (hP : Invariant P) (he : Holds P e e.active) (h : Underway e m)
    (hw : m.waiting = []) :
    (m.explorer.exhausted = true ∧ ∃ e', m.explorer.truncateAll m.live = (e', .ok ()) ∧
      e'.active = [] ∧ e.round = (e', .ok false)) ∨
    (m.explorer.exhausted = false ∧
      e.round = ({ m.explorer with active := m.live }, .ok !m.live.isEmpty)) := by
  obtain ⟨hholds, hactive⟩ := h.holds hP he
  rw [h.round_eq]
  cases hx : m.explorer.exhausted with
  | true =>
    obtain ⟨e', hall, hsame, -⟩ := hP.truncateAll hx hholds
    exact Or.inl ⟨rfl, e', hall, hsame.active.trans hactive, restOfRound_of_exhausted hx hall⟩
  | false => exact Or.inr ⟨rfl, restOfRound_of_nil hw hx⟩

/-- **A round that fails** does so in the turn of a state whose next instruction cannot be run, and
the exploration is left as it was before that turn. -/
theorem exists_of_error (hP : Invariant P) (he : Holds P e e.active) {error : ExecutionError}
    (h : e.round = (e', .error error)) :
    ∃ m s rest fault, Underway e m ∧ m.waiting = s :: rest ∧ m.explorer = e' ∧
      s.path.step e'.program e'.input = .error fault ∧ error = .fault fault := by
  rcases (start (e := e)).exists_rest with ⟨m, hm, hw⟩ | ⟨m, s, rest, cause, hm, hw, hvisit⟩
  · rcases hm.round_of_nil hP he hw with ⟨-, e'', -, -, hround⟩ | ⟨-, hround⟩
    · cases hround.symm.trans h
    · cases hround.symm.trans h
  · obtain ⟨rfl, hcause⟩ := Prod.mk.inj ((hm.round_of_error hw hvisit).symm.trans h)
    cases hcause
    obtain ⟨hholds, -⟩ := hm.holds hP he
    rw [live, hw] at hholds
    rcases hP.visit hholds with ⟨turn, hturn, -⟩ | ⟨fault, hfault, t, ht, -, hstep⟩
    · cases hvisit.symm.trans hturn
    · cases ht
      cases hvisit.symm.trans hfault
      exact ⟨m, _, rest, fault, hm, hw, rfl, hstep, rfl⟩

end Underway

/-- What turns keep, whoever is alive, holds of every reachable exploration and its active
states. -/
theorem Reachable.holds {Q : Explorer → Prop} (hQ : Invariant fun _ e _ => Q e)
    {program : Program} {input : Input} {budget : Option Nat} {e : Explorer}
    (hinitial : Q (.initial program input budget)) (h : Reachable program input budget e) :
    Holds (fun _ e _ => Q e) e e.active := by
  obtain ⟨live, ⟨g, hg, hq⟩, rfl | hidle⟩ :=
    hQ.of_reachable ⟨_, grown_initial program input budget, hinitial⟩ h
  · exact ⟨g, hg, hq⟩
  · refine ⟨g, ?_, hq⟩
    rw [hidle]
    exact hg.sublist (List.nil_sublist live)

theorem Reachable.setting {program : Program} {input : Input} {budget : Option Nat} {e : Explorer}
    (h : Reachable program input budget e) :
    Holds (fun _ e _ => e.program = program ∧ e.input = input ∧ e.budget = budget) e e.active :=
  h.holds (Q := fun e => e.program = program ∧ e.input = input ∧ e.budget = budget)
    (invariant_setting program input budget) ⟨rfl, rfl, rfl⟩

/-- A state at its turn: the program is the one that is explored, and the state's node is open. -/
theorem Underway.open_node {program : Program} {input : Input} {budget : Option Nat} {e : Explorer}
    {m : Moment} {s : State} {rest : List State} (h : Reachable program input budget e)
    (hm : Underway e m) (hw : m.waiting = s :: rest) :
    m.explorer.program = program ∧
      ∃ statements, m.explorer.tree.node? s.node = some (.linear statements none) := by
  obtain ⟨⟨g, hg, hprogram, -⟩, -⟩ := hm.holds (invariant_setting program input budget) h.setting
  have hs : s ∈ m.live := by simp [live, hw]
  exact ⟨hprogram, hg.open_node hs⟩

end Lifter.Explorer
