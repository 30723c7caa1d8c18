import Lifter.Proofs.ValueClass

/-!
# Steps with the input blanked out

What depends on the input can be blanked out: expressions, and the names and lengths of the buffers
they speak of. Two paths that are the same up to blanks take the same step, again up to blanks. So
whether a value is known, and what it is if it is known, never depends on what the input is called or
how long it is.

* `Value.blank`, `Path.blank`, `Step.blank`, ...: data with the input blanked out.
* `Value.blank_add`, `Value.blank_concat`, ...: operations on values that are the same up to blanks.
* **`Path.blank_step`**: steps of paths that are the same up to blanks, for any two inputs.
-/

namespace Lifter

/-! ## Blanks -/

/-- The expression that stands for all others. -/
def Expression.blank : Expression := .identifier ""

/-- A value without its expression, if it is one. A known text stays. -/
def Value.blank : Value → Value
  | concrete text => concrete text
  | symbolic _ => symbolic .blank

/-- A failure without the expression that caused it. -/
def EvalError.blank : EvalError → EvalError
  | symbolicCode _ => symbolicCode .blank
  | error => error

/-- Registers with the input blanked out. -/
def RegisterFile.blank (file : RegisterFile) : RegisterFile := ⟨file.slots.map Value.blank⟩

/-- A path with the input blanked out. -/
def Path.blank (path : Path) : Path := { path with registers := path.registers.blank }

/-- The end of a path without the expression that caused it. -/
def PathError.blank : PathError → PathError
  | unresolvableBranch _ => unresolvableBranch .blank
  | error => error

/-- A statement with the input blanked out. -/
def Statement.blank : Statement → Statement
  | print value => print value.blank
  | declare _ _ => declare "" 0
  | scan _ => scan ""
  | statement => statement

/-- A test with the input blanked out. -/
def Comparison.blank (test : Comparison) : Comparison :=
  ⟨test.left.blank, test.condition, test.right.blank⟩

/-- An outcome with the input blanked out. -/
def Outcome.blank : Outcome → Outcome
  | stopped error => stopped error.blank
  | forked test target => forked test.blank target
  | outcome => outcome

/-- A step with the input blanked out. -/
def Step.blank (step : Step) : Step :=
  ⟨step.emitted.map Statement.blank, step.path.blank, step.outcome.blank⟩

/-- A fault without the expression that caused it. -/
def Fault.blank : Fault → Fault
  | evaluation address error => evaluation address error.blank
  | fault => fault

/-- A result with both its failure and its success changed. -/
def mapBoth {ε ε' α α' : Type} (f : ε → ε') (g : α → α') : Except ε α → Except ε' α'
  | .error error => .error (f error)
  | .ok a => .ok (g a)

section Results

variable {ε ε' δ α β : Type} {f : ε → δ} {g : α → β} {x y : Except ε α}

/-- Computations that go on alike after results that are alike. -/
theorem mapBoth_bind {α' β' : Type} {g' : α' → β'} {k k' : α → Except ε α'}
    (h : mapBoth f g x = mapBoth f g y)
    (hk : ∀ a b, g a = g b → mapBoth f g' (k a) = mapBoth f g' (k' b)) :
    mapBoth f g' (x >>= k) = mapBoth f g' (y >>= k') := by
  cases x with
  | error error =>
    cases y with
    | error error' => exact congrArg Except.error (Except.error.inj h)
    | ok b => cases h
  | ok a =>
    cases y with
    | error error' => cases h
    | ok b => exact hk a b (Except.ok.inj h)

theorem mapBoth_mapError {δ' : Type} {f' : ε' → δ'} (wrap : ε → ε')
    (h : mapBoth f g x = mapBoth f g y) (hf : ∀ a b, f a = f b → f' (wrap a) = f' (wrap b)) :
    mapBoth f' g (x.mapError wrap) = mapBoth f' g (y.mapError wrap) := by
  cases x with
  | error error =>
    cases y with
    | error error' => exact congrArg Except.error (hf error error' (Except.error.inj h))
    | ok b => cases h
  | ok a =>
    cases y with
    | error error' => cases h
    | ok b => exact congrArg Except.ok (Except.ok.inj h)

end Results

/-! ## Values -/

namespace Value

variable {v w l l' r r' : Value}

/-- Two values are the same up to blanks if both are the same known text or neither is known. -/
theorem blank_eq_blank_iff : v.blank = w.blank ↔
    (∃ t, v = concrete t ∧ w = concrete t) ∨ ∃ e f, v = symbolic e ∧ w = symbolic f := by
  cases v <;> cases w <;> simp [blank, eq_comm]

theorem blank_add (hl : l.blank = l'.blank) (hr : r.blank = r'.blank) :
    mapBoth EvalError.blank blank (l.add r) = mapBoth EvalError.blank blank (l'.add r') := by
  rcases blank_eq_blank_iff.mp hl with ⟨s, rfl, rfl⟩ | ⟨e, e', rfl, rfl⟩ <;>
    rcases blank_eq_blank_iff.mp hr with ⟨t, rfl, rfl⟩ | ⟨f, f', rfl, rfl⟩
  · rfl
  · rw [add_concrete_symbolic, add_concrete_symbolic]
    by_cases hs : concrete s = .empty
    · rw [if_pos hs, if_pos hs]
      rfl
    · rw [if_neg hs, if_neg hs]
      cases integer s <;> rfl
  · rw [add_symbolic_concrete, add_symbolic_concrete]
    by_cases ht : concrete t = .empty
    · rw [if_pos ht, if_pos ht]
      rfl
    · rw [if_neg ht, if_neg ht]
      cases integer t <;> rfl
  · rfl

theorem blank_concat (hl : l.blank = l'.blank) (hr : r.blank = r'.blank) :
    (l.concat r).blank = (l'.concat r').blank := by
  rcases blank_eq_blank_iff.mp hl with ⟨s, rfl, rfl⟩ | ⟨e, e', rfl, rfl⟩ <;>
    rcases blank_eq_blank_iff.mp hr with ⟨t, rfl, rfl⟩ | ⟨f, f', rfl, rfl⟩
  · rfl
  · cases hs : s.isEmpty <;> simp [concat, absorbEmpty?, isEmpty, hs, blank]
  · cases ht : t.isEmpty <;> simp [concat, absorbEmpty?, isEmpty, ht, blank]
  · rfl

theorem blank_negate (h : v.blank = w.blank) :
    mapBoth EvalError.blank blank v.negate = mapBoth EvalError.blank blank w.negate := by
  rcases blank_eq_blank_iff.mp h with ⟨t, rfl, rfl⟩ | ⟨e, f, rfl, rfl⟩ <;> rfl

theorem blank_character (h : v.blank = w.blank) :
    mapBoth EvalError.blank blank v.character = mapBoth EvalError.blank blank w.character := by
  rcases blank_eq_blank_iff.mp h with ⟨t, rfl, rfl⟩ | ⟨e, f, rfl, rfl⟩ <;> rfl

/-- The code of the last character is unknown for every expression, whatever its length. -/
theorem exists_lastCode (e : Expression) : ∃ f, (symbolic e).lastCode = .ok (symbolic f) := by
  unfold lastCode
  split
  · exact ⟨_, rfl⟩
  · exact ⟨_, rfl⟩
  · cases ‹symbolic e = _›

theorem exists_dropLast (e : Expression) : ∃ f, (symbolic e).dropLast = symbolic f := by
  unfold dropLast
  split
  · exact ⟨_, rfl⟩
  · exact ⟨_, rfl⟩
  · cases ‹symbolic e = _›

theorem blank_lastCode (h : v.blank = w.blank) :
    mapBoth EvalError.blank blank v.lastCode = mapBoth EvalError.blank blank w.lastCode := by
  rcases blank_eq_blank_iff.mp h with ⟨t, rfl, rfl⟩ | ⟨e, f, rfl, rfl⟩
  · rfl
  · obtain ⟨e', he⟩ := exists_lastCode e
    obtain ⟨f', hf⟩ := exists_lastCode f
    rw [he, hf]
    rfl

theorem blank_dropLast (h : v.blank = w.blank) : v.dropLast.blank = w.dropLast.blank := by
  rcases blank_eq_blank_iff.mp h with ⟨t, rfl, rfl⟩ | ⟨e, f, rfl, rfl⟩
  · rfl
  · obtain ⟨e', he⟩ := exists_dropLast e
    obtain ⟨f', hf⟩ := exists_dropLast f
    rw [he, hf]
    rfl

end Value

/-! ## Paths -/

namespace RegisterFile

variable {file file' : RegisterFile}

theorem get_blank (file : RegisterFile) (r : Register) : file.blank.get r = (file.get r).blank := by
  simp [blank, get]

theorem blank_set (file : RegisterFile) (r : Register) (value : Value) :
    (file.set r value).blank = file.blank.set r value.blank := by
  simp [blank, set, Vector.map_set]

theorem blank_get (h : file.blank = file'.blank) (r : Register) :
    (file.get r).blank = (file'.get r).blank := by
  rw [← get_blank, h, get_blank]

end RegisterFile

namespace Path

variable {path path' : Path} {program : Program} {v w : Value}

theorem blank_eq_blank_iff : path.blank = path'.blank ↔ path.position = path'.position ∧
    path.address = path'.address ∧ path.registers.blank = path'.registers.blank ∧
      path.reads = path'.reads := by
  simp [blank]

theorem blank_write (h : path.blank = path'.blank) (target : Register) (hv : v.blank = w.blank) :
    (path.write target v).blank = (path'.write target w).blank := by
  obtain ⟨hposition, haddress, hregisters, hreads⟩ := blank_eq_blank_iff.mp h
  simp [Step.blank, write, blank, RegisterFile.blank_set, *]

theorem blank_attempt (h : path.blank = path'.blank) (target : Register)
    {x y : Except EvalError Value}
    (hxy : mapBoth EvalError.blank Value.blank x = mapBoth EvalError.blank Value.blank y) :
    mapBoth Fault.blank Step.blank ((path.attempt x).map (path.write target)) =
      mapBoth Fault.blank Step.blank ((path'.attempt y).map (path'.write target)) := by
  have haddress := (blank_eq_blank_iff.mp h).2.1
  have hattempt : mapBoth Fault.blank Value.blank (path.attempt x) =
      mapBoth Fault.blank Value.blank (path'.attempt y) := by
    unfold attempt
    rw [haddress]
    exact mapBoth_mapError _ hxy fun a b hab => congrArg (Fault.evaluation path'.address) hab
  exact mapBoth_bind hattempt fun v w hvw => congrArg Except.ok (blank_write h target hvw)

theorem blank_stop (h : path.blank = path'.blank) {error error' : PathError}
    (he : error.blank = error'.blank) : (path.stop error).blank = (path'.stop error').blank := by
  have hplaceholder : error.placeholder = error'.placeholder := by
    cases error <;> cases error' <;> simp_all [PathError.blank, PathError.placeholder]
  simp [stop, Step.blank, Outcome.blank, h, he, hplaceholder]

theorem blank_branch (h : path.blank = path'.blank) (condition : Condition)
    (offset left right : Register) :
    mapBoth Fault.blank Step.blank (path.branch program condition offset left right) =
      mapBoth Fault.blank Step.blank (path'.branch program condition offset left right) := by
  obtain ⟨-, haddress, hregisters, -⟩ := blank_eq_blank_iff.mp h
  rcases Value.blank_eq_blank_iff.mp (RegisterFile.blank_get hregisters offset) with
    ⟨t, ht, ht'⟩ | ⟨e, f, he, hf⟩
  · cases hn : Value.integer t with
    | error error => rw [branch_of_error ht hn, branch_of_error ht' hn, haddress]
    | ok n =>
      rw [branch_of_integer ht hn, branch_of_integer ht' hn, haddress]
      cases jumpTarget? path'.address n with
      | none => rfl
      | some target =>
        dsimp only
        cases program.positionOf? target with
        | none => exact congrArg Except.ok (blank_stop h rfl)
        | some position =>
          simp [mapBoth, Step.blank, Outcome.blank, Comparison.blank, h,
            RegisterFile.blank_get hregisters]
  · rw [branch_of_symbolic he, branch_of_symbolic hf]
    exact congrArg Except.ok (blank_stop h rfl)

theorem blank_readInput (h : path.blank = path'.blank) (input input' : Input) (target : Register) :
    (path.readInput input target).blank = (path'.readInput input' target).blank := by
  obtain ⟨hposition, haddress, hregisters, hreads⟩ := blank_eq_blank_iff.mp h
  simp [readInput, Step.blank, Statement.readInput, Statement.blank, blank, RegisterFile.blank_set,
    Value.blank, Outcome.blank, *]

theorem blank_run (h : path.blank = path'.blank) (input input' : Input) (instruction : Instruction) :
    mapBoth Fault.blank Step.blank (run program input path instruction) =
      mapBoth Fault.blank Step.blank (run program input' path' instruction) := by
  obtain ⟨-, haddress, hregisters, -⟩ := blank_eq_blank_iff.mp h
  have hget := RegisterFile.blank_get hregisters
  cases instruction with
  | jump offset => simp [run, mapBoth, Fault.blank, haddress]
  | branch condition offset left right =>
    simp only [run]
    exact blank_branch h condition offset left right
  | clear target => exact congrArg Except.ok (blank_write h target rfl)
  | set target literal => exact congrArg Except.ok (blank_write h target rfl)
  | append target literal =>
    exact congrArg Except.ok (blank_write h target (Value.blank_concat (hget target) rfl))
  | concat target left right =>
    exact congrArg Except.ok (blank_write h target (Value.blank_concat (hget left) (hget right)))
  | dropLast target =>
    exact congrArg Except.ok (blank_write h target (Value.blank_dropLast (hget target)))
  | add target left right => exact blank_attempt h target (Value.blank_add (hget left) (hget right))
  | negate target => exact blank_attempt h target (Value.blank_negate (hget target))
  | character target source => exact blank_attempt h target (Value.blank_character (hget source))
  | lastCode target source => exact blank_attempt h target (Value.blank_lastCode (hget source))
  | print source => simp [run, mapBoth, Step.blank, Statement.blank, Outcome.blank, h, hget source]
  | read target => exact congrArg Except.ok (blank_readInput h input input' target)
  | ret => simp [run, mapBoth, Step.blank, Statement.blank, Outcome.blank, h]

/-- **Steps of paths that are the same up to blanks** are the same up to blanks, whatever the two
inputs are. -/
theorem blank_step (h : path.blank = path'.blank) (input input' : Input) :
    mapBoth Fault.blank Step.blank (path.step program input) =
      mapBoth Fault.blank Step.blank (path'.step program input') := by
  obtain ⟨hposition, haddress, hregisters, hreads⟩ := blank_eq_blank_iff.mp h
  unfold step
  rw [hposition]
  cases program.get? path'.position with
  | none => exact congrArg Except.ok (blank_stop h rfl)
  | some placed =>
    refine blank_run ?_ input input' placed.instruction
    exact blank_eq_blank_iff.mpr ⟨rfl, rfl, hregisters, hreads⟩

end Path

end Lifter
