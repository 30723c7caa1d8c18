import Lifter.Proofs.Midround
import Lifter.Proofs.Reporting
import Lifter.Proofs.TreeShape

/-!
# Exploration under a budget comes to an end

A program may loop, and the number of active states may double in every round, so nothing about the
states themselves grows less. What does is the budget: a round that leaves states active has taken
at least one step, and it never leaves any when no step is left.

* `Explorer.EndsWithin`: exploration is over after so many rounds.
* `Explorer.endsWithin_of_over`: for that it is enough that it is over then.
* `Explorer.PassesThrough`: everything that an exploration is in the course of a round.
* **`Explorer.ends_within_budget`**: a budget is never exceeded, it is used up if anything is cut
  off, and it bounds the number of rounds.
-/

namespace Lifter.Explorer

open Moment

variable {e e' : Explorer} {m : Moment} {n : Nat}

/-! ## Explorations that end -/

/-- Exploration is over after `limit` rounds: no state is active then, and if more rounds were
allowed, none of them would be taken. -/
structure EndsWithin (e : Explorer) (limit : Nat) : Prop where
  isOver : (e.explore limit).Over
  idle : (e.explore limit).explorer.active = []
  stable : ∀ rounds, limit ≤ rounds → e.explore rounds = e.explore limit

theorem explore_eq_of_over (h : (e.explore n).Over) {rounds : Nat} (hle : n ≤ rounds) :
    e.explore rounds = e.explore n := by
  induction n generalizing e rounds with
  | zero => exact h.elim
  | succ n ih =>
    obtain ⟨rounds, rfl⟩ : ∃ k, rounds = k + 1 := ⟨rounds - 1, by omega⟩
    unfold explore at h ⊢
    split
    · rfl
    · rename_i e' hround
      rw [hround] at h
      exact ih h (by omega)
    · rfl

theorem active_of_over (h : ∃ g, Grown g e e.active) (hover : (e.explore n).Over) :
    (e.explore n).explorer.active = [] := by
  induction n generalizing e with
  | zero => exact hover.elim
  | succ n ih =>
    obtain ⟨g, hg⟩ := h
    rcases invariant_true.round ⟨g, hg, trivial⟩ with
      ⟨e', hround, g', hg', -⟩ | ⟨e', fault, rest, hround, hidle, -⟩
    · cases hactive : e'.active with
      | nil =>
        simp only [explore, hround, hactive]
        exact hactive
      | cons s rest =>
        simp only [explore, hround, hactive] at hover ⊢
        exact ih ⟨g', hg'⟩ hover
    · simp only [explore, hround]
      exact hidle

theorem endsWithin_of_over (h : ∃ g, Grown g e e.active) (hover : (e.explore n).Over) :
    e.EndsWithin n :=
  ⟨hover, active_of_over h hover, fun _ hle => explore_eq_of_over hover hle⟩

/-! ## The budget -/

theorem not_exhausted_of_more (h : e.round = (e', .ok true)) : e'.exhausted = false := by
  unfold round at h
  split at h
  · cases h
  · split at h
    · split at h
      · cases h
      · cases h
    · rename_i next remaining hsweep hx
      obtain ⟨rfl, -⟩ := Prod.mk.inj h
      exact Bool.eq_false_iff.mpr hx

theorem not_exhausted_of_unfinished (h : e.explore (n + 1) = .unfinished e') :
    e'.exhausted = false := by
  induction n generalizing e with
  | zero =>
    unfold explore at h
    split at h
    · cases h
    · rename_i next hround
      cases h
      exact not_exhausted_of_more hround
    · cases h
  | succ n ih =>
    unfold explore at h
    split at h
    · cases h
    · exact ih h
    · cases h

/-- Everything that an exploration is in the course of a round: between two turns, and while the
states that are left at the end of the budget are cut off. -/
inductive PassesThrough (e : Explorer) : Explorer → Prop
  | turns {m : Moment} : Underway e m → PassesThrough e m.explorer
  | cuts {m : Moment} {cut : List State} {e' : Explorer} : Underway e m → m.waiting = [] →
      m.explorer.exhausted = true → cut <+: m.live → m.explorer.truncateAll cut = (e', .ok ()) →
        PassesThrough e e'

theorem steps_of_truncateAll {live : List State} (h : e.truncateAll live = (e', .ok ())) :
    e'.steps = e.steps := by
  induction live generalizing e with
  | nil =>
    cases h
    rfl
  | cons s rest ih =>
    unfold truncateAll at h
    split at h
    · cases h
    · rename_i next hnext
      have hsteps : next.steps = e.steps := by
        obtain ⟨tree, -, hrest⟩ := exists_of_bind_eq_ok hnext
        cases hrest
        rfl
      exact (ih h).trans hsteps

/-- No more steps have been taken than there may be, and all of them if anything has been cut
off. -/
structure KeepsTo (e : Explorer) (budget : Nat) : Prop where
  steps_le : e.steps ≤ budget
  spent : e.truncated = true → e.steps = budget

theorem Spending.keepsTo (h : Spending e) (hbudget : e.budget = some n) : e.KeepsTo n where
  steps_le := h.steps_le n hbudget
  spent htruncated := Option.some.inj ((h.spent htruncated).symm.trans hbudget)

variable {program : Program} {input : Input} {budget : Nat}

/-- What holds throughout an exploration under a budget, whoever is alive. -/
def Spends (program : Program) (input : Input) (budget : Nat) (e : Explorer) : Prop :=
  Spending e ∧ e.program = program ∧ e.input = input ∧ e.budget = some budget

theorem invariant_spends : Invariant fun _ e _ => Spends program input budget e :=
  invariant_spending.and (invariant_setting program input (some budget))

theorem Reachable.spends (h : Reachable program input (some budget) e) :
    Holds (fun _ e _ => Spends program input budget e) e e.active :=
  h.holds invariant_spends ⟨spending_initial program input (some budget), rfl, rfl, rfl⟩

theorem keepsTo_of_passesThrough (h : Reachable program input (some budget) e)
    (hpass : PassesThrough e e') : e'.KeepsTo budget := by
  cases hpass with
  | turns hm =>
    obtain ⟨⟨g, -, hspending, -, -, hbudget⟩, -⟩ := hm.holds invariant_spends h.spends
    exact hspending.keepsTo hbudget
  | @cuts m cut _ hm _ hx _ hcut =>
    obtain ⟨⟨g, -, hspending, -, -, hbudget⟩, -⟩ := hm.holds invariant_spends h.spends
    have hall : m.explorer.steps = budget :=
      Option.some.inj ((hspending.budget_eq hx).symm.trans hbudget)
    rw [← steps_of_truncateAll hcut] at hall
    exact ⟨Nat.le_of_eq hall, fun _ => hall⟩

/-- A budget does not last for more rounds than it has steps, and for one in any case. -/
theorem over_of_budget (h : Reachable program input (some budget) e) :
    (e.explore (max 1 budget)).Over := by
  obtain ⟨k, m, hk, hends, hrounds⟩ :=
    exists_after_ends invariant_spends h.spends (max 1 budget)
  cases hexplore : e.explore (max 1 budget) with
  | complete e' => trivial
  | failed e' error => trivial
  | unfinished e' =>
    -- each of the rounds has taken a step, and none has found the budget used up
    exfalso
    rw [hexplore] at hends
    obtain rfl : m = start e' := hends
    obtain ⟨hsound, -, hsteps⟩ :=
      invariant_spends.after (invariant_spends.start h.spends) hk
    obtain ⟨g, -, -, -, -, hbudget⟩ := hsound.holds
    have hle := hrounds e' hexplore
    have hsucc : max 1 budget = max 1 budget - 1 + 1 := by omega
    rw [hsucc] at hexplore
    have hleft := not_exhausted_of_unfinished hexplore
    have hnone : e'.exhausted = true := by
      refine exhausted_eq_true_iff.mpr ⟨budget, hbudget, ?_⟩
      change e'.steps = e.steps + k at hsteps
      omega
    rw [hleft] at hnone
    cases hnone

/-- **A budget ends every exploration.** At no time have more steps been taken than the budget
allows, and when something has been cut off, exactly as many. Exploration is over, completed or
failed, after no more rounds than the budget has steps, or after one if it has none. -/
theorem ends_within_budget (h : Reachable program input (some budget) e) :
    e.KeepsTo budget ∧ (∀ e', PassesThrough e e' → e'.KeepsTo budget) ∧
      e.EndsWithin (max 1 budget) := by
  obtain ⟨g, -, hspending, -, -, hbudget⟩ := h.spends
  exact ⟨hspending.keepsTo hbudget, fun _ => keepsTo_of_passesThrough h,
    endsWithin_of_over h.exists_grown (over_of_budget h)⟩

/-- A branch that goes back to itself, with a budget that is used up. -/
theorem ends_after_seven_steps :
    let program := Program.ofList [⟨0, .set ⟨5⟩ "-1"⟩, ⟨1, .branch .less ⟨5⟩ ⟨6⟩ ⟨7⟩⟩]
    let e := initial program ⟨1, "flag"⟩ (some 7)
    (e.explore 7).explorer.truncated = true ∧ (e.explore 7).explorer.KeepsTo 7 ∧
      e.EndsWithin 7 :=
  ⟨by decide +kernel, (ends_within_budget (.explore 7 .initial)).1,
    (ends_within_budget .initial).2.2⟩

end Lifter.Explorer
