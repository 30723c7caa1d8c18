import Lifter.Path

/-!
# What values can be

Operations on values build expressions of a few forms only. So a class of expressions that is closed
under these forms has in it everything that a path can hold, as soon as it has the buffers that the
path reads.

* `Value.add_cases`, `Value.lastCode_cases`, ...: what an operation can give.
* `Value.Within`, `Expression.Stable`: a known text or an expression of a class; classes that
  arithmetic and operations on last characters stay in.
* `Value.Joins`, `Path.joined?`: joining that builds an expression, and what an instruction joins.
* `Path.branch_of_symbolic`, ..., `Path.branch_cases`: what a conditional jump does.
* **`Path.within_of_step`**: what the registers of a path hold stays in a class.
-/

namespace Lifter

/-- The index of the last character of an object. -/
def Expression.lastIndex (object : Expression) : Expression :=
  .binary "-" (.symbolic (.member object (.concrete "\"length\""))) (.concrete "1")

theorem toOption_eq_some_iff {ε α : Type} {x : Except ε α} {a : α} :
    x.toOption = some a ↔ x = .ok a := by
  cases x <;> simp [Except.toOption]

theorem exists_of_bind_eq_ok {ε α β : Type} {x : Except ε α} {f : α → Except ε β} {b : β}
    (h : x >>= f = .ok b) : ∃ a, x = .ok a ∧ f a = .ok b := by
  cases x with
  | error error => cases h
  | ok a => exact ⟨a, rfl, h⟩

namespace Value

variable {v l r w : Value} {s t : String} {e : Expression}

/-! ## Results -/

theorem isEmpty_iff : v.isEmpty = true ↔ v = .empty := by
  cases v with
  | concrete t => simp [isEmpty, Value.empty]
  | symbolic e => simp [isEmpty, Value.empty]

theorem absorbEmpty?_cases (h : absorbEmpty? l r = some w) :
    (r = .empty ∧ w = l) ∨ (l = .empty ∧ w = r) := by
  unfold absorbEmpty? at h
  split at h
  · exact Or.inl ⟨isEmpty_iff.mp ‹_›, (Option.some.inj h).symm⟩
  · split at h
    · exact Or.inr ⟨isEmpty_iff.mp ‹_›, (Option.some.inj h).symm⟩
    · cases h

theorem absorbEmpty?_eq_none (hl : l ≠ .empty) (hr : r ≠ .empty) : absorbEmpty? l r = none := by
  unfold absorbEmpty?
  rw [if_neg fun h => hr (isEmpty_iff.mp h), if_neg fun h => hl (isEmpty_iff.mp h)]

theorem integer_eq_ok_iff {n : Int} : integer t = .ok n ↔ Integer.read? t = some n := by
  unfold integer
  cases Integer.read? t <;> simp

theorem checked_cases {n : Int} (h : checked n = .ok w) : w = ofInt n ∧ Integer.InRange n := by
  unfold checked at h
  split at h
  · obtain ⟨rfl, hr⟩ := Integer.checked?_eq_some_iff.mp ‹_›
    exact ⟨(Except.ok.inj h).symm, hr⟩
  · cases h

theorem numeric_cases (h : v.numeric = .ok w) :
    (∃ e, v = symbolic e ∧ w = symbolic e) ∨ ∃ n, Integer.InRange n ∧ w = ofInt n := by
  cases v with
  | symbolic e => exact Or.inl ⟨e, rfl, (Except.ok.inj h).symm⟩
  | concrete t =>
    cases ht : integer t with
    | error error => simp [numeric, ht, Except.map] at h
    | ok n =>
      simp only [numeric, ht, Except.map, Except.ok.injEq] at h
      exact Or.inr ⟨n, Integer.inRange_of_read? (integer_eq_ok_iff.mp ht), h.symm⟩

/-- The sum of a known text and an expression. -/
theorem add_concrete_symbolic (s : String) (e : Expression) :
    (concrete s).add (symbolic e) = if concrete s = .empty then .ok (symbolic e)
      else (integer s).map fun n => symbolic (.binary "+" (ofInt n) (symbolic e)) := by
  by_cases hs : concrete s = .empty
  · rw [if_pos hs, hs]
    rfl
  · have hnone : absorbEmpty? (concrete s) (symbolic e) = none :=
      absorbEmpty?_eq_none hs (by rintro ⟨⟩)
    simp only [if_neg hs, add, hnone, numeric]
    cases integer s <;> rfl

/-- The sum of an expression and a known text. -/
theorem add_symbolic_concrete (e : Expression) (t : String) :
    (symbolic e).add (concrete t) = if concrete t = .empty then .ok (symbolic e)
      else (integer t).map fun n => symbolic (.binary "+" (symbolic e) (ofInt n)) := by
  by_cases ht : concrete t = .empty
  · rw [if_pos ht, ht]
    rfl
  · have hnone : absorbEmpty? (symbolic e) (concrete t) = none :=
      absorbEmpty?_eq_none (by rintro ⟨⟩) ht
    simp only [if_neg ht, add, hnone, numeric]
    cases integer t <;> rfl

/-- **What a sum can be**: an operand, if the other one is empty; the numeral of the sum of two known
texts; or an expression of the operands in canonical form. -/
theorem add_cases (h : l.add r = .ok w) :
    (r = .empty ∧ w = l) ∨ (l = .empty ∧ w = r) ∨
    (∃ n, Integer.InRange n ∧ w = ofInt n) ∨
    ∃ l' r', l.numeric = .ok l' ∧ r.numeric = .ok r' ∧ w = symbolic (.binary "+" l' r') ∧
      ∀ s t, ¬ (l = concrete s ∧ r = concrete t) := by
  unfold add at h
  split at h
  · cases h
    rcases absorbEmpty?_cases ‹_› with h | h
    · exact Or.inl h
    · exact Or.inr (Or.inl h)
  · right; right
    split at h
    · obtain ⟨m, -, h⟩ := exists_of_bind_eq_ok h
      obtain ⟨n, -, h⟩ := exists_of_bind_eq_ok h
      obtain ⟨rfl, hr⟩ := checked_cases h
      exact Or.inl ⟨m + n, hr, rfl⟩
    · rename_i hne
      obtain ⟨l', hl, h⟩ := exists_of_bind_eq_ok h
      obtain ⟨r', hr, h⟩ := exists_of_bind_eq_ok h
      cases h
      exact Or.inr ⟨l', r', hl, hr, rfl, fun s t ⟨hs, ht⟩ => hne s t hs ht⟩

theorem negate_cases (h : v.negate = .ok w) :
    (∃ e, v = symbolic e ∧ w = symbolic (.unary "-" (symbolic e))) ∨
    ∃ n, Integer.InRange n ∧ w = ofInt n := by
  cases v with
  | symbolic e => exact Or.inl ⟨e, rfl, (Except.ok.inj h).symm⟩
  | concrete t =>
    obtain ⟨n, -, h⟩ := exists_of_bind_eq_ok h
    obtain ⟨rfl, hr⟩ := checked_cases h
    exact Or.inr ⟨-n, hr, rfl⟩

/-- Joining two values builds an expression of them. -/
def Joins (l r : Value) : Prop := l.concat r = symbolic (.binary "+" l r)

theorem concat_cases (l r : Value) :
    l.concat r = l ∨ l.concat r = r ∨ (∃ t, l.concat r = concrete t) ∨ l.Joins r := by
  unfold Joins concat
  split
  · rcases absorbEmpty?_cases ‹_› with ⟨-, rfl⟩ | ⟨-, rfl⟩
    · exact Or.inl rfl
    · exact Or.inr (Or.inl rfl)
  · split
    · exact Or.inr (Or.inr (Or.inl ⟨_, rfl⟩))
    · exact Or.inr (Or.inr (Or.inr rfl))

/-- Known texts are joined into a known text. -/
theorem concat_texts (s t : String) : (concrete s).concat (concrete t) = concrete (s ++ t) := by
  by_cases ht : t = ""
  · subst ht
    simp [concat, absorbEmpty?, isEmpty]
  · by_cases hs : s = ""
    · subst hs
      simp [concat, absorbEmpty?, isEmpty, ht]
    · have hnone : absorbEmpty? (concrete s) (concrete t) = none :=
        absorbEmpty?_eq_none (fun h => hs (Value.concrete.inj h)) fun h => ht (Value.concrete.inj h)
      simp only [concat, hnone]

theorem Joins.not_texts (h : l.Joins r) (s t : String) : ¬ (l = concrete s ∧ r = concrete t) := by
  rintro ⟨rfl, rfl⟩
  cases (concat_texts s t).symm.trans h

theorem exists_of_character (h : v.character = .ok w) : ∃ t, w = concrete t := by
  cases v with
  | symbolic e => cases h
  | concrete t =>
    obtain ⟨code, -, h⟩ := exists_of_bind_eq_ok h
    split at h
    · exact ⟨_, (Except.ok.inj h).symm⟩
    · cases h

theorem lastCode_symbolic (h : ∀ name n, e ≠ .buffer name (some (n + 1))) :
    (symbolic e).lastCode = .ok (symbolic (.member e (symbolic e.lastIndex))) := by
  unfold lastCode
  split
  · exact absurd (Value.symbolic.inj ‹_›) (h _ _)
  · cases ‹symbolic e = _›
    rfl
  · cases ‹symbolic e = _›

theorem lastCode_cases (h : v.lastCode = .ok w) :
    (∃ name n, v = symbolic (.buffer name (some (n + 1))) ∧
      w = symbolic (.member (.buffer name (some (n + 1))) (ofNat n))) ∨
    (∃ e, v = symbolic e ∧ w = symbolic (.member e (symbolic e.lastIndex))) ∨
    ∃ t, w = concrete t := by
  unfold lastCode at h
  split at h
  · exact Or.inl ⟨_, _, rfl, (Except.ok.inj h).symm⟩
  · exact Or.inr (Or.inl ⟨_, rfl, (Except.ok.inj h).symm⟩)
  · split at h
    · exact Or.inr (Or.inr ⟨_, (Except.ok.inj h).symm⟩)
    · cases h

theorem dropLast_symbolic (h : ∀ name n, e ≠ .buffer name (some (n + 1))) :
    (symbolic e).dropLast = symbolic (.member e (concrete ":-1")) := by
  unfold dropLast
  split
  · exact absurd (Value.symbolic.inj ‹_›) (h _ _)
  · cases ‹symbolic e = _›
    rfl
  · cases ‹symbolic e = _›

theorem dropLast_cases (v : Value) :
    (∃ name n, v = symbolic (.buffer name (some (n + 1))) ∧
      v.dropLast = symbolic (.buffer name (some n))) ∨
    (∃ e, v = symbolic e ∧ v.dropLast = symbolic (.member e (concrete ":-1"))) ∨
    ∃ t, v.dropLast = concrete t := by
  unfold dropLast
  split
  · exact Or.inl ⟨_, _, rfl, rfl⟩
  · exact Or.inr (Or.inl ⟨_, rfl, rfl⟩)
  · exact Or.inr (Or.inr ⟨_, rfl⟩)

/-! ## Classes of values -/

/-- A known text, or an expression of the class `K`. -/
def Within (K : Expression → Prop) : Value → Prop
  | concrete _ => True
  | symbolic e => K e

/-- An operand of a sum: the numeral of an integer, or an expression of the class `K`. -/
def Summand (K : Expression → Prop) (v : Value) : Prop :=
  (∃ e, v = symbolic e ∧ K e) ∨ ∃ n, Integer.InRange n ∧ v = ofInt n

end Value

/-- Classes of expressions that arithmetic and operations on last characters stay in. -/
structure Expression.Stable (K : Expression → Prop) : Prop where
  negate : ∀ {e}, K e → K (.unary "-" (.symbolic e))
  add : ∀ {l r : Value}, l.Summand K → r.Summand K →
    (∀ s t, ¬ (l = .concrete s ∧ r = .concrete t)) → K (.binary "+" l r)
  code : ∀ {name n}, K (.buffer name (some (n + 1))) →
    K (.member (.buffer name (some (n + 1))) (.ofNat n))
  lastCode : ∀ {e}, K e → K (.member e (.symbolic e.lastIndex))
  shorten : ∀ {name n}, K (.buffer name (some (n + 1))) → K (.buffer name (some n))
  dropLast : ∀ {e}, K e → K (.member e (.concrete ":-1"))

namespace Value

variable {K : Expression → Prop} {v l r w : Value}

theorem Summand.within (h : v.Summand K) : v.Within K := by
  obtain ⟨e, rfl, he⟩ | ⟨n, -, rfl⟩ := h
  · exact he
  · trivial

theorem Within.numeric (h : v.Within K) (hw : v.numeric = .ok w) : w.Summand K := by
  rcases numeric_cases hw with ⟨e, rfl, rfl⟩ | hn
  · exact Or.inl ⟨e, rfl, h⟩
  · exact Or.inr hn

theorem exists_concrete_of_numeric {t : String} (h : v.numeric = .ok (concrete t)) :
    ∃ s, v = concrete s := by
  cases v with
  | concrete s => exact ⟨s, rfl⟩
  | symbolic e => cases h

theorem Within.add (hK : Expression.Stable K) (hl : l.Within K) (hr : r.Within K)
    (h : l.add r = .ok w) : w.Within K := by
  rcases add_cases h with ⟨-, rfl⟩ | ⟨-, rfl⟩ | ⟨n, -, rfl⟩ | ⟨l', r', hl', hr', rfl, hne⟩
  · exact hl
  · exact hr
  · trivial
  · refine hK.add (hl.numeric hl') (hr.numeric hr') ?_
    rintro s t ⟨rfl, rfl⟩
    obtain ⟨s', hs⟩ := exists_concrete_of_numeric hl'
    obtain ⟨t', ht⟩ := exists_concrete_of_numeric hr'
    exact hne s' t' ⟨hs, ht⟩

theorem Within.negate (hK : Expression.Stable K) (hv : v.Within K) (h : v.negate = .ok w) :
    w.Within K := by
  rcases negate_cases h with ⟨e, rfl, rfl⟩ | ⟨n, -, rfl⟩
  · exact hK.negate hv
  · trivial

theorem Within.lastCode (hK : Expression.Stable K) (hv : v.Within K) (h : v.lastCode = .ok w) :
    w.Within K := by
  rcases lastCode_cases h with ⟨name, n, rfl, rfl⟩ | ⟨e, rfl, rfl⟩ | ⟨t, rfl⟩
  · exact hK.code hv
  · exact hK.lastCode hv
  · trivial

theorem Within.dropLast (hK : Expression.Stable K) (hv : v.Within K) : v.dropLast.Within K := by
  rcases dropLast_cases v with ⟨name, n, rfl, hd⟩ | ⟨e, rfl, hd⟩ | ⟨t, hd⟩ <;> rw [hd]
  · exact hK.shorten hv
  · exact hK.dropLast hv
  · trivial

theorem Within.concat (hl : l.Within K) (hr : r.Within K)
    (hjoin : l.Joins r → K (.binary "+" l r)) : (l.concat r).Within K := by
  rcases concat_cases l r with h | h | ⟨t, h⟩ | h
  · rwa [h]
  · rwa [h]
  · rw [h]; trivial
  · rw [h]; exact hjoin h

end Value

/-! ## Registers -/

/-- The two values that an instruction joins, if it does that. -/
def Instruction.joined? (registers : RegisterFile) : Instruction → Option (Value × Value)
  | .concat _ left right => some (registers.get left, registers.get right)
  | .append target literal => some (registers.get target, .concrete literal)
  | _ => none

/-- The next instruction of a path. -/
def Path.next? (program : Program) (path : Path) : Option Instruction :=
  (program.get? path.position).map Placed.instruction

/-- The two values that the next instruction of a path joins, if it does that. -/
def Path.joined? (program : Program) (path : Path) : Option (Value × Value) :=
  (path.next? program).bind (Instruction.joined? path.registers)

/-- All registers hold known texts or expressions of the class `K`. -/
def RegisterFile.Within (K : Expression → Prop) (file : RegisterFile) : Prop :=
  ∀ r, (file.get r).Within K

variable {K : Expression → Prop} {file : RegisterFile} {program : Program} {input : Input}
  {path : Path} {step : Step}

theorem RegisterFile.Within.set (h : file.Within K) {target : Register} {value : Value}
    (hv : value.Within K) : (file.set target value).Within K := by
  intro r
  by_cases hr : target = r
  · subst hr
    rwa [get_set_self]
  · rw [get_set_of_ne file hr]
    exact h r

theorem RegisterFile.within_initial : RegisterFile.initial.Within K := by
  intro r
  rw [get_initial]
  trivial

namespace Path

/-- The result of an operation is written to a register. -/
theorem within_of_attempt {result : Except EvalError Value} {target : Register}
    (h : path.registers.Within K) (hv : ∀ value, result = .ok value → value.Within K)
    (hstep : (path.attempt result).map (path.write target) = .ok step) :
    step.path.registers.Within K := by
  cases result with
  | error error => cases hstep
  | ok value =>
    cases hstep
    exact h.set (hv value rfl)

section Branch

variable {condition : Condition} {offset left right : Register} {t : String}

theorem branch_of_symbolic {e : Expression} (h : path.registers.get offset = .symbolic e) :
    path.branch program condition offset left right = .ok (path.stop (.unresolvableBranch e)) := by
  simp only [branch, h]

/-- An operation that gives a result. The rest is a variable here, so that the large bounds that jump
targets are compared with are never unfolded. -/
theorem attempt_ok_bind {α β : Type} (path : Path) (a : α) (rest : α → Except Fault β) :
    path.attempt (.ok a) >>= rest = rest a := rfl

theorem attempt_error_bind {α β : Type} (path : Path) (error : EvalError)
    (rest : α → Except Fault β) :
    path.attempt (.error error) >>= rest = .error (.evaluation path.address error) := rfl

theorem branch_of_error {error : EvalError} (h : path.registers.get offset = .concrete t)
    (ht : Value.integer t = .error error) :
    path.branch program condition offset left right = .error (.evaluation path.address error) := by
  unfold branch
  split
  · rename_i he
    cases h.symm.trans he
  · rename_i text he
    obtain rfl : t = text := Value.concrete.inj (h.symm.trans he)
    rw [ht, attempt_error_bind]

theorem branch_of_integer {n : Int} (h : path.registers.get offset = .concrete t)
    (ht : Value.integer t = .ok n) :
    path.branch program condition offset left right =
      match jumpTarget? path.address n with
      | none => .error (.evaluation path.address .overflow)
      | some target =>
        match program.positionOf? target with
        | none => .ok (path.stop (.missingJumpTarget target))
        | some position =>
          .ok ⟨[], path,
            .forked ⟨path.registers.get left, condition, path.registers.get right⟩ position⟩ := by
  unfold branch
  split
  · rename_i he
    cases h.symm.trans he
  · rename_i text he
    obtain rfl : t = text := Value.concrete.inj (h.symm.trans he)
    rewrite [ht, attempt_ok_bind]
    cases jumpTarget? path.address n with
    | none => rfl
    | some target => cases program.positionOf? target <;> rfl

/-- **What a conditional jump can do**: end the path, for another reason than the budget, or split
it. -/
theorem branch_cases (h : path.branch program condition offset left right = .ok step) :
    (∃ error, error ≠ .budgetExhausted ∧ step = path.stop error) ∨ ∃ position, step = ⟨[], path,
      .forked ⟨path.registers.get left, condition, path.registers.get right⟩ position⟩ := by
  cases hv : path.registers.get offset with
  | symbolic e =>
    rw [branch_of_symbolic hv] at h
    exact Or.inl ⟨_, by simp, (Except.ok.inj h).symm⟩
  | concrete t =>
    cases ht : Value.integer t with
    | error error =>
      rw [branch_of_error hv ht] at h
      cases h
    | ok n =>
      rw [branch_of_integer hv ht] at h
      cases hj : jumpTarget? path.address n with
      | none => simp [hj] at h
      | some target =>
        cases hp : program.positionOf? target with
        | none =>
          simp only [hj, hp, Except.ok.injEq] at h
          exact Or.inl ⟨_, by simp, h.symm⟩
        | some position =>
          simp only [hj, hp, Except.ok.injEq] at h
          exact Or.inr ⟨position, h.symm⟩

end Branch

theorem within_of_run {instruction : Instruction}
    (hrun : run program input path instruction = .ok step) (hK : Expression.Stable K)
    (h : path.registers.Within K)
    (hread : ∀ target, instruction = .read target →
      K (.buffer (input.bufferName path.reads) (some input.length)))
    (hjoin : ∀ l r, instruction.joined? path.registers = some (l, r) → l.Joins r →
      K (.binary "+" l r)) : step.path.registers.Within K := by
  cases instruction with
  | jump offset => cases hrun
  | branch condition offset left right =>
    have hbranch : path.branch program condition offset left right = .ok step := hrun
    rcases branch_cases hbranch with ⟨error, -, rfl⟩ | ⟨position, rfl⟩
    · exact h
    · exact h
  | clear target =>
    cases hrun
    exact h.set trivial
  | set target literal =>
    cases hrun
    exact h.set trivial
  | append target literal =>
    cases hrun
    exact h.set ((h target).concat trivial (hjoin _ _ rfl))
  | concat target left right =>
    cases hrun
    exact h.set ((h left).concat (h right) (hjoin _ _ rfl))
  | dropLast target =>
    cases hrun
    exact h.set ((h target).dropLast hK)
  | add target left right => exact within_of_attempt h (fun _ => (h left).add hK (h right)) hrun
  | negate target => exact within_of_attempt h (fun _ => (h target).negate hK) hrun
  | character target source =>
    refine within_of_attempt h (fun value hv => ?_) hrun
    obtain ⟨t, rfl⟩ := Value.exists_of_character hv
    trivial
  | lastCode target source => exact within_of_attempt h (fun _ => (h source).lastCode hK) hrun
  | print source =>
    cases hrun
    exact h
  | read target =>
    cases hrun
    exact h.set (hread target rfl)
  | ret =>
    cases hrun
    exact h

/-- **What the registers of a path hold stays in a class** that has the buffers that are read, and
the expressions that are built by joining. -/
theorem within_of_step (hK : Expression.Stable K) (h : path.registers.Within K)
    (hread : ∀ target, path.next? program = some (.read target) →
      K (.buffer (input.bufferName path.reads) (some input.length)))
    (hjoin : ∀ l r, path.joined? program = some (l, r) → l.Joins r → K (.binary "+" l r))
    (hstep : path.step program input = .ok step) : step.path.registers.Within K := by
  unfold Path.step at hstep
  split at hstep
  · cases hstep
    exact h
  · rename_i address instruction hget
    have hnext : path.next? program = some instruction := by simp [next?, hget]
    refine within_of_run hstep hK h (fun target ht => hread target (ht ▸ hnext)) fun l r hlr => ?_
    apply hjoin l r
    rw [joined?, hnext]
    exact hlr

end Path

end Lifter
