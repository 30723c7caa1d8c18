import Lifter.Proofs.Holdings

/-!
# Access to buffers

Whatever a program computes from its input, the expressions for it have few shapes, and a buffer in
them is indexed by a number only where the number is below its length. Dropping characters makes a
buffer shorter until it is empty; from there on the expressions speak of its length instead.

* `Expression.WellShaped`: the expressions that occur, as the least class closed under a few rules.
* `Expression.complete_wellShaped`: no instruction leaves the class.
* `Expression.parts`, `Expression.InBounds`: the parts of an expression, and what each has to
  respect; **`Expression.WellShaped.inBounds`**: in the class all do.
* **`Explorer.wellShaped_of_reachable`**: all that an exploration holds is in the class.
-/

namespace Lifter

namespace Expression

/-- The least class of expressions with the buffers of at most `bound` characters that is closed
under changes of sign, sums with at least one operand in it, and last characters. A buffer that is
not empty has its last character by number; the last character of anything else is found through its
length. -/
inductive WellShaped (bound : Nat) : Expression → Prop
  | buffer {name : String} {n : Nat} : n ≤ bound → WellShaped bound (.buffer name (some n))
  | negate {e : Expression} : WellShaped bound e → WellShaped bound (.unary "-" (.symbolic e))
  | add {l r : Expression} : WellShaped bound l → WellShaped bound r →
      WellShaped bound (.binary "+" (.symbolic l) (.symbolic r))
  | addKnown {l : Expression} {text : String} : WellShaped bound l →
      WellShaped bound (.binary "+" (.symbolic l) (.concrete text))
  | knownAdd {text : String} {r : Expression} : WellShaped bound r →
      WellShaped bound (.binary "+" (.concrete text) (.symbolic r))
  | code {name : String} {n : Nat} : 0 < n → n ≤ bound →
      WellShaped bound (.member (.buffer name (some n)) (.concrete (Text.decimal (n - 1))))
  | dropLast {e : Expression} : WellShaped bound e →
      WellShaped bound (.member e (.concrete ":-1"))
  | lastCode {e : Expression} : WellShaped bound e → WellShaped bound (.member e (.symbolic
      (.binary "-" (.symbolic (.member e (.concrete "\"length\""))) (.concrete "1"))))

variable {bound : Nat} {l r : Value}

/-- A sum of operands that are known or in the class, but not both known. -/
theorem wellShaped_sum (hl : l.Within (WellShaped bound)) (hr : r.Within (WellShaped bound))
    (hne : ∀ s t, ¬ (l = .concrete s ∧ r = .concrete t)) : WellShaped bound (.binary "+" l r) := by
  cases l with
  | concrete s =>
    cases r with
    | concrete t => exact absurd ⟨rfl, rfl⟩ (hne s t)
    | symbolic r => exact .knownAdd hr
  | symbolic l =>
    cases r with
    | concrete t => exact .addKnown hl
    | symbolic r => exact .add hl hr

theorem WellShaped.length_le {name : String} {n : Nat}
    (h : WellShaped bound (.buffer name (some n))) : n ≤ bound := by
  cases h with
  | buffer hle => exact hle

/-- **No instruction leaves the class.** -/
theorem complete_wellShaped (input : Input) : Complete input (WellShaped input.length) where
  negate := .negate
  add hl hr hne := wellShaped_sum hl.within hr.within hne
  code h := .code (Nat.succ_pos _) h.length_le
  lastCode := .lastCode
  shorten h := .buffer (Nat.le_of_succ_le h.length_le)
  dropLast := .dropLast
  buffer _ := .buffer (Nat.le_refl _)
  join hl hr hjoins := wellShaped_sum hl hr hjoins.not_texts

end Expression

/-! ## Parts of an expression -/

mutual

/-- An expression and all expressions in it. -/
def Expression.parts : Expression → List Expression
  | .identifier name => [.identifier name]
  | .buffer name length => [.buffer name length]
  | .unary operator argument => .unary operator argument :: argument.parts
  | .binary operator left right => .binary operator left right :: (left.parts ++ right.parts)
  | .member object property => .member object property :: (object.parts ++ property.parts)

/-- All expressions in a value. -/
def Value.parts : Value → List Expression
  | .concrete _ => []
  | .symbolic expression => expression.parts

end

/-- What a part of an expression over buffers of at most `bound` characters has to respect: it is no
bare name, it knows the length of a buffer, and a number that it indexes a buffer by is below that
length. -/
structure Expression.InBounds (bound : Nat) (part : Expression) : Prop where
  named : ∀ name, part ≠ .identifier name
  measured : ∀ name, part ≠ .buffer name none
  indexed : ∀ name length index k, part = .member (.buffer name length) (.concrete index) →
    Text.readNatural? index.toList = some k → ∃ n, length = some n ∧ k < n ∧ n ≤ bound

namespace Expression

variable {bound : Nat} {e part : Expression}

/-- Most parts have nothing to respect. -/
theorem inBounds_of_ne (hname : ∀ name, part ≠ .identifier name)
    (hbuffer : ∀ name, part ≠ .buffer name none)
    (hindex : ∀ name length index, part = .member (.buffer name length) (.concrete index) →
      Text.readNatural? index.toList = none) : part.InBounds bound :=
  ⟨hname, hbuffer, fun name length index _ hpart hread => by
    cases (hindex name length index hpart).symm.trans hread⟩

/-- **A well-shaped expression stays in bounds**, in all its parts. -/
theorem WellShaped.inBounds (h : WellShaped bound e) : ∀ part ∈ e.parts, part.InBounds bound := by
  induction h with
  | buffer hle => simpa [parts] using inBounds_of_ne (by simp) (by simp) (by simp)
  | negate _ ih =>
    simp only [parts, Value.parts, List.forall_mem_cons]
    exact ⟨inBounds_of_ne (by simp) (by simp) (by simp), ih⟩
  | add _ _ ihl ihr =>
    simp only [parts, Value.parts, List.forall_mem_cons, List.forall_mem_append]
    exact ⟨inBounds_of_ne (by simp) (by simp) (by simp), ihl, ihr⟩
  | addKnown _ ih =>
    simp only [parts, Value.parts, List.forall_mem_cons, List.append_nil]
    exact ⟨inBounds_of_ne (by simp) (by simp) (by simp), ih⟩
  | knownAdd _ ih =>
    simp only [parts, Value.parts, List.forall_mem_cons, List.nil_append]
    exact ⟨inBounds_of_ne (by simp) (by simp) (by simp), ih⟩
  | @code name n hpos hle =>
    simp only [parts, Value.parts, List.forall_mem_cons, List.append_nil]
    refine ⟨⟨by simp, by simp, ?_⟩, inBounds_of_ne (by simp) (by simp) (by simp), by simp⟩
    -- the only number that a buffer is indexed by
    rintro name' length index k ⟨⟩ hread
    rw [Text.readNatural?_decimal] at hread
    cases hread
    exact ⟨n, rfl, by omega, hle⟩
  | dropLast _ ih =>
    simp only [parts, Value.parts, List.forall_mem_cons, List.append_nil]
    refine ⟨inBounds_of_ne (by simp) (by simp) ?_, ih⟩
    rintro name length index ⟨⟩
    decide
  | lastCode _ ih =>
    simp only [parts, Value.parts, List.forall_mem_cons, List.forall_mem_append, List.append_nil]
    refine ⟨inBounds_of_ne (by simp) (by simp) (by simp), ih,
      inBounds_of_ne (by simp) (by simp) (by simp), inBounds_of_ne (by simp) (by simp) ?_, ih⟩
    rintro name length index ⟨⟩
    decide

end Expression

theorem Value.Within.inBounds {bound : Nat} {v : Value}
    (h : v.Within (Expression.WellShaped bound)) : ∀ part ∈ v.parts, part.InBounds bound := by
  cases v with
  | concrete text => simp [parts]
  | symbolic e => exact Expression.WellShaped.inBounds h

/-! ## Explorations -/

namespace Explorer

variable {program : Program} {input : Input} {budget : Option Nat} {e : Explorer}

/-- **Buffers are accessed in bounds.** What the registers of all states hold, and what is printed
and tested in the tree, is known or well-shaped; so bare names and buffers of unknown length do not
occur in it, and numbers index a buffer below its length. -/
theorem wellShaped_of_reachable (h : Reachable program input budget e) :
    (∀ s ∈ e.active ++ e.finished.toList, ∀ r,
      (s.path.registers.get r).Within (Expression.WellShaped input.length) ∧
        ∀ part ∈ (s.path.registers.get r).parts, part.InBounds input.length) ∧
    e.tree.Every (Node.Holds input (Expression.WellShaped input.length)) := by
  obtain ⟨hregisters, htree⟩ := holds_of_reachable (Expression.complete_wellShaped input) h
  exact ⟨fun s hs r => ⟨hregisters s hs r, (hregisters s hs r).inBounds⟩, htree⟩

/-- Two characters are dropped from a buffer of two: its last character is taken by number while
there is one, and through its length afterwards. -/
theorem wellShaped_after_dropping :
    let e := (initial (.ofList [⟨0, .read ⟨0⟩⟩, ⟨1, .dropLast ⟨0⟩⟩, ⟨2, .lastCode ⟨1⟩ ⟨0⟩⟩,
      ⟨3, .dropLast ⟨0⟩⟩, ⟨4, .lastCode ⟨2⟩ ⟨0⟩⟩, ⟨5, .concat ⟨3⟩ ⟨1⟩ ⟨2⟩⟩]) ⟨2, "flag"⟩
      none).afterRounds 6
    e.active.map (fun s => (s.path.registers.get ⟨3⟩).text) =
        ["(flag[0] + flag[(flag[\"length\"] - 1)])"] ∧
      ∀ s ∈ e.active, (s.path.registers.get ⟨3⟩).Within (Expression.WellShaped 2) := by
  intro e
  have hreachable : Reachable _ _ _ e := .round (.round (.round (.round (.round (.round .initial)))))
  refine ⟨by decide +kernel, fun s hs => ?_⟩
  exact ((wellShaped_of_reachable hreachable).1 s (List.mem_append_left _ hs) ⟨3⟩).1

end Explorer

end Lifter
