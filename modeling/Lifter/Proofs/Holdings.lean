import Lifter.Proofs.Kinship
import Lifter.Proofs.StepForm

/-!
# What an exploration holds

What a path writes into the pseudocode it has held in a register before. So a class of expressions
that no instruction leaves has in it all that an exploration holds: in the registers of every state,
and in everything that is printed or tested in its tree.

* `Expression.Complete`: classes of expressions that no instruction leaves.
* `Node.Holds`: a node that prints or tests values of a class, and names buffers of the input.
* `Path.within_of_complete`, `Path.Form.holds`: an instruction stays in such a class, and so does
  what it emits and tests.
* **`Explorer.holds_of_reachable`**: so do whole explorations.
-/

namespace Lifter

/-- Classes of expressions that no instruction leaves: besides the results of arithmetic and of
operations on last characters they have the buffers of the input, and what is joined. -/
structure Expression.Complete (input : Input) (K : Expression → Prop) : Prop extends
    Expression.Stable K where
  buffer : ∀ reads, K (.buffer (input.bufferName reads) (some input.length))
  join : ∀ {l r : Value}, l.Within K → r.Within K → l.Joins r → K (.binary "+" l r)

/-- A statement that prints a value of the class `K`, or names a buffer of the input. -/
def Statement.Holds (input : Input) (K : Expression → Prop) : Statement → Prop
  | print value => value.Within K
  | declare name _ | scan name => ∃ reads, name = input.bufferName reads
  | _ => True

/-- A test of two values of the class `K`. -/
def Comparison.Holds (K : Expression → Prop) (test : Comparison) : Prop :=
  test.left.Within K ∧ test.right.Within K

/-- A node whose statements or test are of the class `K`. -/
def Node.Holds (input : Input) (K : Expression → Prop) : Node Statement Comparison → Prop
  | linear statements _ => ∀ st ∈ statements, st.Holds input K
  | conditional test _ _ => test.Holds K

variable {input : Input} {K : Expression → Prop}

/-! ## Paths -/

namespace Path

variable {path : Path} {program : Program} {step : Step}

/-- What an instruction joins it finds in registers, or it is a literal. -/
theorem within_of_joined {l r : Value} (h : path.registers.Within K)
    (hjoined : path.joined? program = some (l, r)) : l.Within K ∧ r.Within K := by
  obtain ⟨instruction, -, hjoined⟩ := Option.bind_eq_some_iff.mp hjoined
  cases instruction with
  | concat target left right =>
    cases hjoined
    exact ⟨h left, h right⟩
  | append target literal =>
    cases hjoined
    exact ⟨h target, trivial⟩
  | _ => cases hjoined

theorem holds_placeholder (error : PathError) : error.placeholder.Holds input K := by
  cases error <;> trivial

/-- What a step emits and tests. -/
theorem Form.holds (hform : Form input path.registers path.reads step)
    (h : path.registers.Within K) :
    (∀ st ∈ step.emitted, st.Holds input K) ∧
      ∀ test target, step.outcome = .forked test target → test.Holds K := by
  cases hform with
  | stop =>
    refine ⟨fun st hst => ?_, by rintro test target ⟨⟩⟩
    rw [List.mem_singleton.mp hst]
    exact holds_placeholder _
  | ret =>
    refine ⟨fun st hst => ?_, by rintro test target ⟨⟩⟩
    rw [List.mem_singleton.mp hst]
    trivial
  | @fork _ condition left right =>
    refine ⟨by simp, ?_⟩
    rintro test target ⟨⟩
    exact ⟨h left, h right⟩
  | write => exact ⟨by simp, by rintro test target ⟨⟩⟩
  | @print _ source =>
    refine ⟨fun st hst => ?_, by rintro test target ⟨⟩⟩
    rw [List.mem_singleton.mp hst]
    exact h source
  | read =>
    refine ⟨?_, by rintro test target ⟨⟩⟩
    simp only [Statement.readInput, List.forall_mem_cons]
    exact ⟨⟨path.reads, rfl⟩, ⟨path.reads, rfl⟩, by simp⟩

/-- **An instruction stays in a complete class.** -/
theorem within_of_complete (hK : Expression.Complete input K) (h : path.registers.Within K)
    (hstep : path.step program input = .ok step) : step.path.registers.Within K :=
  within_of_step hK.toStable h (fun _ _ => hK.buffer path.reads)
    (fun _ _ hjoined hj => hK.join (within_of_joined h hjoined).1 (within_of_joined h hjoined).2 hj)
    hstep

end Path

/-! ## Explorations -/

namespace Explorer

variable {e : Explorer} {s : State} {rest live live' : List State}
  {g : Growth Statement Comparison} {statements : Array Statement} {step : Step}

/-- The states that a turn leaves are others as they were, or hold what the instruction left. -/
theorem registers_settle {t : State}
    (ht : t ∈ (e.settle s statements step).explorer.everyone
      ((e.settle s statements step).survivors ++ (e.settle s statements step).spawned ++ rest)) :
    t ∈ e.everyone rest ∨ t.path.registers = step.path.registers := by
  obtain ⟨emitted, path, outcome⟩ := step
  cases outcome <;>
    simp only [settle, everyone, finish, record, children, Array.toList_push, List.mem_append,
      List.mem_cons, List.not_mem_nil, or_false, false_or] at ht ⊢ <;>
    grind

/-- All registers and all nodes hold values of the class `K`. -/
structure Holding (input : Input) (K : Expression → Prop) (e : Explorer) (live : List State) :
    Prop where
  setting : e.input = input
  registers : ∀ s ∈ e.everyone live, s.path.registers.Within K
  tree : e.tree.Every (Node.Holds input K)

theorem Holding.fill (h : e.tree.Every (Node.Holds input K))
    (hnode : e.tree.node? s.node = some (.linear statements none)) {emitted : List Statement}
    (hemitted : ∀ st ∈ emitted, st.Holds input K) (next : Option NodeId) :
    Node.Holds input K (.linear (statements ++ emitted.toArray) next) := by
  intro st hst
  rcases Array.mem_append.mp hst with hst | hst
  · exact h s.node _ hnode st hst
  · exact hemitted st (List.mem_toArray.mp hst)

theorem invariant_holding (hK : Expression.Complete input K) :
    Invariant fun _ e live => Holding input K e live where
  perm hp h := ⟨h.setting, fun t ht => h.registers t ((hp.append_right _).mem_iff.mpr ht), h.tree⟩
  active _ h := ⟨h.setting, h.registers, h.tree⟩
  settle := by
    intro g e s rest statements step _ hnode _ hstep h
    have hs : s.path.registers.Within K := h.registers s List.mem_cons_self
    rw [h.setting] at hstep
    obtain ⟨hemitted, htest⟩ := (Path.form_of_step hstep).holds hs
    have hfilled := Holding.fill h.tree hnode hemitted
    refine ⟨sameSetting_settle.input.trans h.setting, fun t ht => ?_, ?_⟩
    · rcases registers_settle ht with ht | ht
      · exact h.registers t (List.mem_cons_of_mem _ ht)
      · rw [ht]
        exact Path.within_of_complete hK hs hstep
    · obtain ⟨emitted, path, outcome⟩ := step
      cases outcome with
      | forked test target =>
        exact h.tree.graft (by simp [Node.Holds]) (fun _ _ => htest test target rfl) hfilled s.node
      | _ => exact h.tree.replace (hfilled none) s.node
  cutOff := by
    intro g e s rest statements _ hnode _ h
    have hplaceholder : ∀ st ∈ [PathError.budgetExhausted.placeholder], st.Holds input K := by
      simpa using Path.holds_placeholder .budgetExhausted
    have hfilled := Holding.fill h.tree hnode hplaceholder none
    refine ⟨h.setting, fun t ht => ?_, h.tree.replace ?_ s.node⟩
    · simp only [everyone, cutOff, record, Array.toList_push, List.mem_append, List.mem_cons,
        List.not_mem_nil, or_false] at ht
      rcases ht with ht | ht | rfl
      · exact h.registers t (List.mem_cons_of_mem _ (List.mem_append_left _ ht))
      · exact h.registers t (List.mem_cons_of_mem _ (List.mem_append_right _ ht))
      · exact h.registers s List.mem_cons_self
    · simpa using hfilled

theorem holding_initial (program : Program) (input : Input) (budget : Option Nat) :
    Holding input K (.initial program input budget) (initial program input budget).active := by
  refine ⟨rfl, fun s hs => ?_, ?_⟩
  · obtain rfl := List.mem_singleton.mp hs
    exact RegisterFile.within_initial
  · have hempty : (StatementTree.empty : StatementTree Statement Comparison).Every
        (Node.Holds input K) := by
      simp [StatementTree.Every, StatementTree.empty, StatementTree.node?]
    exact hempty.add (by simp [Node.Holds])

/-- **What an exploration holds stays in a complete class**, in the registers of all states and in
all nodes of the tree. -/
theorem holds_of_reachable {program : Program} {budget : Option Nat}
    (hK : Expression.Complete input K) (h : Reachable program input budget e) :
    (∀ s ∈ e.active ++ e.finished.toList, s.path.registers.Within K) ∧
      e.tree.Every (Node.Holds input K) := by
  obtain ⟨live, ⟨g, -, hholding⟩, hactive⟩ := (invariant_holding hK).of_reachable
    ⟨_, grown_initial program input budget, holding_initial program input budget⟩ h
  refine ⟨fun s hs => hholding.registers s ?_, hholding.tree⟩
  rcases hactive with rfl | hnil
  · exact hs
  · rw [hnil] at hs
    exact List.mem_append_right _ hs

end Explorer

end Lifter
