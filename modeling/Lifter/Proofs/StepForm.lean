import Lifter.Proofs.ValueClass

/-!
# What a step can be

An instruction does one of six things to its path. What is written into the pseudocode, how the path
goes on and whether it has read input are tied together in each of them, and nothing else about the
instruction matters for the shape of the pseudocode.

* `PathError.lastLine`: the lines in which paths come to an early end.
* `Path.Form`: the six forms of a step.
* **`Path.form_of_step`**: every step has one of them.
* `Path.emitted_of_read`: what is emitted when input is read.
* `Path.exists_of_fault`: what there is where no step is.
-/

namespace Lifter

/-- The line in which a path comes to an early end. -/
def PathError.lastLine : PathError → String
  | .unresolvableBranch _ => "// unknown path"
  | .missingJumpTarget _ => "// unknown path"
  | .endOfProgram => "// end of program"
  | .budgetExhausted => "// exploration truncated"

theorem PathError.text_placeholder (error : PathError) :
    error.placeholder.text = error.lastLine := by
  cases error <;> rfl

namespace Path

/-- The forms of a step of a path that holds `registers` and has read input `reads` times, with
`now` for the path after it. -/
inductive Form (input : Input) (registers : RegisterFile) (reads : Nat) : Step → Prop
  /-- The path ends before the program does. -/
  | stop {now : Path} {error : PathError} : error ≠ .budgetExhausted → now.reads = reads →
      Form input registers reads ⟨[error.placeholder], now, .stopped error⟩
  | ret {now : Path} : now.reads = reads →
      Form input registers reads ⟨[.ret], now, .returned⟩
  /-- The path splits, at a test of what two registers hold. -/
  | fork {now : Path} {condition : Condition} {left right : Register} {target : Nat} :
      now.reads = reads → Form input registers reads
        ⟨[], now, .forked ⟨registers.get left, condition, registers.get right⟩ target⟩
  /-- A register is written, and nothing is emitted. -/
  | write {now : Path} : now.reads = reads → Form input registers reads ⟨[], now, .running⟩
  | print {now : Path} {source : Register} : now.reads = reads →
      Form input registers reads ⟨[.print (registers.get source)], now, .running⟩
  | read {now : Path} : now.reads = reads + 1 → Form input registers reads
      ⟨Statement.readInput (input.bufferName reads) input.length, now, .running⟩

variable {path : Path} {program : Program} {input : Input} {step : Step}

theorem form_of_attempt {result : Except EvalError Value} {target : Register}
    (h : (path.attempt result).map (path.write target) = .ok step) :
    Form input path.registers path.reads step := by
  cases result with
  | error error => cases h
  | ok value =>
    cases h
    exact .write rfl

theorem form_of_run {instruction : Instruction}
    (h : run program input path instruction = .ok step) :
    Form input path.registers path.reads step := by
  cases instruction with
  | jump offset => cases h
  | branch condition offset left right =>
    have hbranch : path.branch program condition offset left right = .ok step := h
    rcases branch_cases hbranch with ⟨error, herror, rfl⟩ | ⟨position, rfl⟩
    · exact .stop herror rfl
    · exact .fork rfl
  | clear | set | append | concat | dropLast =>
    cases h
    exact .write rfl
  | add | negate | character | lastCode => exact form_of_attempt h
  | print source =>
    cases h
    exact .print rfl
  | read target =>
    cases h
    exact .read rfl
  | ret =>
    cases h
    exact .ret rfl

/-- **Every step has one of the forms.** -/
theorem form_of_step (h : path.step program input = .ok step) :
    Form input path.registers path.reads step := by
  unfold Path.step at h
  split at h
  · cases h
    exact .stop (by simp) rfl
  · -- the instruction runs on the path with its position moved, which holds and has read the same
    have hform := form_of_run h
    exact hform

/-- Reading input declares a buffer of its own. -/
theorem emitted_of_read {target : Register} (hnext : path.next? program = some (.read target))
    (h : path.step program input = .ok step) :
    step.emitted = Statement.readInput (input.bufferName path.reads) input.length := by
  obtain ⟨⟨address, instruction⟩, hget, rfl⟩ := Option.map_eq_some_iff.mp hnext
  simp only [Path.step, hget] at h
  cases h
  rfl

/-! ## Faults -/

theorem fault_of_attempt {result : Except EvalError Value} {target : Register} {fault : Fault}
    (h : (path.attempt result).map (path.write target) = .error fault) :
    ∃ cause, fault = .evaluation path.address cause := by
  cases result with
  | error cause =>
    cases h
    exact ⟨cause, rfl⟩
  | ok value => cases h

theorem fault_of_branch {condition : Condition} {offset left right : Register} {fault : Fault}
    (h : path.branch program condition offset left right = .error fault) :
    ∃ cause, fault = .evaluation path.address cause := by
  cases hv : path.registers.get offset with
  | symbolic e =>
    rw [branch_of_symbolic hv] at h
    cases h
  | concrete t =>
    cases ht : Value.integer t with
    | error cause =>
      rw [branch_of_error hv ht] at h
      exact ⟨cause, (Except.error.inj h).symm⟩
    | ok n =>
      rw [branch_of_integer hv ht] at h
      cases hj : jumpTarget? path.address n with
      | none =>
        simp only [hj, Except.error.injEq] at h
        exact ⟨.overflow, h.symm⟩
      | some target => cases hp : program.positionOf? target <;> simp [hj, hp] at h

/-- A fault names the address of the instruction that cannot be run. -/
theorem fault_of_run {instruction : Instruction} {fault : Fault}
    (h : run program input path instruction = .error fault) :
    fault = .unsupported path.address instruction ∨
      ∃ cause, fault = .evaluation path.address cause := by
  cases instruction with
  | jump offset => exact Or.inl (Except.error.inj h).symm
  | branch condition offset left right =>
    have hbranch : path.branch program condition offset left right = .error fault := h
    exact Or.inr (fault_of_branch hbranch)
  | add | negate | character | lastCode => exact Or.inr (fault_of_attempt h)
  | clear | set | append | concat | dropLast | print | read | ret => cases h

theorem exists_of_fault {fault : Fault} (h : path.step program input = .error fault) :
    ∃ address instruction, program.get? path.position = some ⟨address, instruction⟩ ∧
      (fault = .unsupported address instruction ∨ ∃ cause, fault = .evaluation address cause) := by
  unfold Path.step at h
  split at h
  · cases h
  · rename_i address instruction hget
    exact ⟨address, instruction, hget, fault_of_run h⟩

end Path

end Lifter
