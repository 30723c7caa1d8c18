import Lifter.Proofs.ValueClass
import Mathlib.Data.List.Basic

/-!
# Substituting the input

Operations on values that depend on the input build expressions. Once it is said what the buffers
hold, an expression has a value itself, and it makes no difference whether the input is put in before
an operation or after it. Addition is the exception where an operand comes out empty: the sum is then
the other operand as it stands, and an expression does not keep how that was spelled.

* `Expression.eval?`, `Value.eval?`: the value of an expression for given contents of the buffers.
* `Value.Built`: values that come from buffers and known texts by arithmetic and by operations on
  last characters.
* `Value.isText_of_eval?`: the value of an expression is a known text.
* `Value.eval?_negate`, `Value.eval?_lastCode`, `Value.eval?_dropLast`, `Value.eval?_add`: one
  operation each.
* **`Value.eval?_commutes`**: operations commute with putting in the input.
-/

namespace Lifter

/-! ## Evaluation -/

mutual

/-- The value of an expression, if it has one, where `content` tells what each buffer holds. A buffer
of length `n` is the first `n` characters that it holds. -/
def Expression.eval? (content : String → String) : Expression → Option Value
  | .identifier _ => none
  | .buffer name length =>
    length.map fun n => .concrete (String.ofList ((content name).toList.take n))
  | .unary operator argument =>
    if operator = "-" then (argument.eval? content).bind fun value => value.negate.toOption else none
  | .binary operator left right =>
    if operator = "+" then do
      let l ← left.eval? content
      let r ← right.eval? content
      (l.add r).toOption
    else none
  | .member object property =>
    match property with
    | .symbolic index =>
      if index = object.lastIndex then
        (object.eval? content).bind fun value => value.lastCode.toOption
      else none
    | .concrete text =>
      if text = ":-1" then (object.eval? content).map Value.dropLast
      else
        match object with
        | .buffer name _ => do
          let k ← Text.readNatural? text.toList
          let c ← (content name).toList[k]?
          return .ofNat c.toNat
        | _ => none

/-- What a value is when the input has been put in. -/
def Value.eval? (content : String → String) : Value → Option Value
  | .concrete text => some (.concrete text)
  | .symbolic expression => expression.eval? content

end

namespace Value

/-- Values that are built from known texts, and from buffers that hold at least as many characters as
their lengths say, by `add`, `negate`, `lastCode` and `dropLast`. -/
inductive Built (content : String → String) : Value → Prop
  | text (text : String) : Built content (.concrete text)
  | buffer {name : String} {n : Nat} : n ≤ (content name).length →
      Built content (.symbolic (.buffer name (some n)))
  | add {left right value : Value} : Built content left → Built content right →
      left.add right = .ok value → Built content value
  | negate {value result : Value} : Built content value → value.negate = .ok result →
      Built content result
  | lastCode {value result : Value} : Built content value → value.lastCode = .ok result →
      Built content result
  | dropLast {value : Value} : Built content value → Built content value.dropLast

variable {content : String → String} {v l r w : Value} {s t : String} {e : Expression}

@[simp] theorem eval?_concrete (t : String) : (concrete t).eval? content = some (concrete t) := by
  simp [Value.eval?]

@[simp] theorem eval?_symbolic (e : Expression) :
    (symbolic e).eval? content = e.eval? content := by
  simp [Value.eval?]

/-! ## Known texts -/

theorem toOption_bind {ε α β : Type} (x : Except ε α) (f : α → Except ε β) :
    (x >>= f).toOption = x.toOption.bind fun a => (f a).toOption := by
  cases x <;> rfl

theorem toOption_integer (t : String) : (integer t).toOption = Integer.read? t := by
  unfold integer
  cases Integer.read? t <;> rfl

/-- The sum of two known texts, neither of them empty. -/
theorem toOption_add_texts (hs : concrete s ≠ .empty) (ht : concrete t ≠ .empty) :
    ((concrete s).add (concrete t)).toOption =
      (Integer.read? s).bind fun m =>
        (Integer.read? t).bind fun n => (checked (m + n)).toOption := by
  simp only [add, absorbEmpty?_eq_none hs ht, toOption_bind, toOption_integer]

theorem ofInt_ne_empty (n : Int) : ofInt n ≠ .empty := by
  intro h
  have hread := Integer.readChars?_signedDecimal n
  rw [show Text.signedDecimal n = "" from Value.concrete.inj h] at hread
  cases hread

/-- In a sum of known texts, the left one may be put in canonical form first. -/
theorem add_canonical_left (hs : concrete s ≠ .empty) (ht : concrete t ≠ .empty) :
    ((Integer.read? s).bind fun n => ((ofInt n).add (concrete t)).toOption) =
      ((concrete s).add (concrete t)).toOption := by
  rw [toOption_add_texts hs ht]
  cases hn : Integer.read? s with
  | none => rfl
  | some n =>
    rw [Option.bind_some, ofInt, toOption_add_texts (ofInt_ne_empty n) ht,
      Integer.read?_signedDecimal (Integer.inRange_of_read? hn)]

/-- In a sum of known texts, the right one may be put in canonical form first. -/
theorem add_canonical_right (hs : concrete s ≠ .empty) (ht : concrete t ≠ .empty) :
    ((Integer.read? t).bind fun n => ((concrete s).add (ofInt n)).toOption) =
      ((concrete s).add (concrete t)).toOption := by
  rw [toOption_add_texts hs ht]
  cases hn : Integer.read? t with
  | none => cases Integer.read? s <;> rfl
  | some n =>
    rw [Option.bind_some, ofInt, toOption_add_texts hs (ofInt_ne_empty n),
      Integer.read?_signedDecimal (Integer.inRange_of_read? hn)]

/-- A known text. -/
def IsText (v : Value) : Prop := ∃ t, v = concrete t

theorem isText_concrete (t : String) : (concrete t).IsText := ⟨t, rfl⟩

theorem IsText.negate (h : v.IsText) (hw : v.negate.toOption = some w) : w.IsText := by
  obtain ⟨t, rfl⟩ := h
  rcases negate_cases (toOption_eq_some_iff.mp hw) with ⟨e, he, -⟩ | ⟨n, -, rfl⟩
  · cases he
  · exact isText_concrete _

theorem IsText.add (hl : l.IsText) (hr : r.IsText) (hw : (l.add r).toOption = some w) :
    w.IsText := by
  obtain ⟨s, rfl⟩ := hl
  obtain ⟨t, rfl⟩ := hr
  rcases add_cases (toOption_eq_some_iff.mp hw) with ⟨-, rfl⟩ | ⟨-, rfl⟩ | ⟨n, -, rfl⟩ |
    ⟨l', r', -, -, -, hne⟩
  · exact isText_concrete s
  · exact isText_concrete t
  · exact isText_concrete _
  · exact absurd ⟨rfl, rfl⟩ (hne s t)

theorem IsText.lastCode (h : v.IsText) (hw : v.lastCode.toOption = some w) : w.IsText := by
  obtain ⟨t, rfl⟩ := h
  rcases lastCode_cases (toOption_eq_some_iff.mp hw) with ⟨name, n, hv, -⟩ | ⟨e, hv, -⟩ | h
  · cases hv
  · cases hv
  · exact h

theorem IsText.dropLast (h : v.IsText) : v.dropLast.IsText := by
  obtain ⟨t, rfl⟩ := h
  exact isText_concrete _

end Value

mutual

theorem Expression.isText_of_eval? {content : String → String} :
    ∀ {e : Expression} {w : Value}, e.eval? content = some w → w.IsText
  | .identifier _, w, h => by simp [Expression.eval?] at h
  | .buffer name length, w, h => by
    obtain ⟨n, -, rfl⟩ := Option.map_eq_some_iff.mp h
    exact Value.isText_concrete _
  | .unary operator argument, w, h => by
    unfold Expression.eval? at h
    split at h
    · obtain ⟨v, hv, hw⟩ := Option.bind_eq_some_iff.mp h
      exact (Value.isText_of_eval? hv).negate hw
    · cases h
  | .binary operator left right, w, h => by
    unfold Expression.eval? at h
    split at h
    · obtain ⟨l, hl, h⟩ := Option.bind_eq_some_iff.mp h
      obtain ⟨r, hr, hw⟩ := Option.bind_eq_some_iff.mp h
      exact (Value.isText_of_eval? hl).add (Value.isText_of_eval? hr) hw
    · cases h
  | .member object (.symbolic index), w, h => by
    unfold Expression.eval? at h
    simp only at h
    split at h
    · obtain ⟨v, hv, hw⟩ := Option.bind_eq_some_iff.mp h
      exact (Expression.isText_of_eval? hv).lastCode hw
    · cases h
  | .member object (.concrete text), w, h => by
    unfold Expression.eval? at h
    simp only at h
    split at h
    · obtain ⟨v, hv, rfl⟩ := Option.map_eq_some_iff.mp h
      exact (Expression.isText_of_eval? hv).dropLast
    · split at h
      · obtain ⟨k, -, h⟩ := Option.bind_eq_some_iff.mp h
        obtain ⟨c, -, h⟩ := Option.bind_eq_some_iff.mp h
        cases h
        exact Value.isText_concrete _
      · cases h

/-- **The value of an expression is a known text.** -/
theorem Value.isText_of_eval? {content : String → String} :
    ∀ {v w : Value}, v.eval? content = some w → w.IsText
  | .concrete t, w, h => by
    rw [Value.eval?_concrete] at h
    exact ⟨t, (Option.some.inj h).symm⟩
  | .symbolic e, w, h => by
    rw [Value.eval?_symbolic] at h
    exact Expression.isText_of_eval? h

end

namespace Value

variable {content : String → String} {v l r w : Value} {s t : String} {e : Expression}

/-- Known texts do not depend on the input. -/
theorem bind_eval?_of_isText {x : Option Value} (h : ∀ w, x = some w → w.IsText) :
    x.bind (eval? content) = x := by
  cases x with
  | none => rfl
  | some w =>
    obtain ⟨t, rfl⟩ := h w rfl
    simp

/-! ## The operations -/

theorem eval?_negate (v : Value) :
    v.negate.toOption.bind (eval? content) =
      (v.eval? content).bind fun w => w.negate.toOption := by
  cases v with
  | concrete t =>
    rw [bind_eval?_of_isText fun w hw => (isText_concrete t).negate hw]
    simp
  | symbolic e => simp [negate, Except.toOption, Expression.eval?]

/-- Buffers that hold at least as many characters as their lengths say. -/
def Fits (content : String → String) (e : Expression) : Prop :=
  ∀ name n, e = .buffer name (some n) → n ≤ (content name).length

theorem stable_fits : Expression.Stable (Fits content) where
  negate _ := by rintro _ _ ⟨⟩
  add _ _ _ := by rintro _ _ ⟨⟩
  code _ := by rintro _ _ ⟨⟩
  lastCode _ := by rintro _ _ ⟨⟩
  shorten {name n} h := by
    rintro _ _ ⟨⟩
    have := h name (n + 1) rfl
    omega
  dropLast _ := by rintro _ _ ⟨⟩

theorem Built.within_fits (h : Built content v) : v.Within (Fits content) := by
  induction h with
  | text text => trivial
  | buffer h =>
    rintro _ _ ⟨⟩
    exact h
  | add _ _ h ihl ihr => exact ihl.add stable_fits ihr h
  | negate _ h ih => exact ih.negate stable_fits h
  | lastCode _ h ih => exact ih.lastCode stable_fits h
  | dropLast _ ih => exact ih.dropLast stable_fits

theorem decimal_ne_all_but_last (n : Nat) : Text.decimal n ≠ ":-1" := by
  intro h
  have hread := Text.readNatural?_decimal n
  rw [h] at hread
  cases hread

/-- The last of the first `n + 1` characters of a buffer is the one at `n`. -/
theorem getLast?_take_succ {cs : List Char} {n : Nat} (h : n < cs.length) :
    (cs.take (n + 1)).getLast? = cs[n]? := by
  rw [List.getLast?_eq_getElem?, List.length_take, List.getElem?_take]
  have : min (n + 1) cs.length - 1 = n := by omega
  rw [this, if_pos (Nat.lt_succ_self n)]

theorem dropLast_take_succ {cs : List Char} {n : Nat} (h : n < cs.length) :
    (cs.take (n + 1)).dropLast = cs.take n := by
  rw [List.dropLast_eq_take, List.length_take, List.take_take]
  congr 1
  omega

theorem eval?_lastCode (h : v.Within (Fits content)) :
    v.lastCode.toOption.bind (eval? content) =
      (v.eval? content).bind fun w => w.lastCode.toOption := by
  cases v with
  | concrete t =>
    rw [bind_eval?_of_isText fun w hw => (isText_concrete t).lastCode hw]
    simp
  | symbolic e =>
    by_cases hbuffer : ∃ name n, e = .buffer name (some (n + 1))
    · obtain ⟨name, n, rfl⟩ := hbuffer
      have hlt : n < (content name).toList.length := by
        rw [String.length_toList]
        exact h name (n + 1) rfl
      simp [lastCode, Except.toOption, Expression.eval?, ofNat, decimal_ne_all_but_last,
        Text.readNatural?_decimal, getLast?_take_succ hlt, hlt]
    · have hne : ∀ name n, e ≠ .buffer name (some (n + 1)) := fun name n he =>
        hbuffer ⟨name, n, he⟩
      simp [lastCode_symbolic hne, Except.toOption, Expression.eval?]

theorem eval?_dropLast (h : v.Within (Fits content)) :
    v.dropLast.eval? content = (v.eval? content).map dropLast := by
  cases v with
  | concrete t => simp [dropLast]
  | symbolic e =>
    by_cases hbuffer : ∃ name n, e = .buffer name (some (n + 1))
    · obtain ⟨name, n, rfl⟩ := hbuffer
      have hlt : n < (content name).toList.length := by
        rw [String.length_toList]
        exact h name (n + 1) rfl
      simp [dropLast, Expression.eval?, dropLast_take_succ hlt]
    · have hne : ∀ name n, e ≠ .buffer name (some (n + 1)) := fun name n he =>
        hbuffer ⟨name, n, he⟩
      simp [dropLast_symbolic hne, Expression.eval?]

theorem ne_empty_of_eval? (h : v.eval? content ≠ some .empty) : v ≠ .empty := by
  rintro rfl
  exact h (eval?_concrete "")

theorem eval?_sum (l r : Value) :
    (Expression.binary "+" l r).eval? content =
      (l.eval? content).bind fun l' => (r.eval? content).bind fun r' => (l'.add r').toOption := by
  rw [Expression.eval?, if_pos rfl]
  rfl

/-- The expression that an integer goes into, if there is one. -/
theorem toOption_map_integer (t : String) (f : Int → Expression) :
    ((integer t).map fun n => symbolic (f n)).toOption.bind (eval? content) =
      (Integer.read? t).bind fun n => (f n).eval? content := by
  rw [← toOption_integer]
  cases integer t with
  | error error => rfl
  | ok n => exact eval?_symbolic (f n)

/-- **A sum and its expression agree** as long as no operand comes out empty. -/
theorem eval?_add (hl : l.eval? content ≠ some .empty) (hr : r.eval? content ≠ some .empty) :
    (l.add r).toOption.bind (eval? content) =
      (l.eval? content).bind fun l' => (r.eval? content).bind fun r' => (l'.add r').toOption := by
  have hl' := ne_empty_of_eval? hl
  have hr' := ne_empty_of_eval? hr
  cases l with
  | concrete s =>
    cases r with
    | concrete t =>
      rw [bind_eval?_of_isText fun w hw => (isText_concrete s).add (isText_concrete t) hw]
      simp
    | symbolic e =>
      rw [add_concrete_symbolic, if_neg hl', toOption_map_integer]
      simp only [eval?_sum, ofInt, eval?_concrete, Option.bind_some]
      cases he : (symbolic e).eval? content with
      | none => cases Integer.read? s <;> rfl
      | some w =>
        obtain ⟨t, rfl⟩ := isText_of_eval? he
        exact add_canonical_left hl' fun h => hr (h ▸ he)
  | symbolic e =>
    cases r with
    | concrete t =>
      rw [add_symbolic_concrete, if_neg hr', toOption_map_integer]
      simp only [eval?_sum, ofInt, eval?_concrete, Option.bind_some]
      cases he : (symbolic e).eval? content with
      | none => cases Integer.read? t <;> rfl
      | some w =>
        obtain ⟨s, rfl⟩ := isText_of_eval? he
        exact add_canonical_right (fun h => hl (h ▸ he)) hr'
    | symbolic f => exact eval?_sum (symbolic e) (symbolic f)

/-- **Operations commute with putting in the input.** What an operation gives for values that depend
on the input comes to the same as the operation on what the values come to, for sums unless one of
these is empty; and if one of the two ways fails, so does the other. -/
theorem eval?_commutes (hv : Built content v) :
    (v.negate.toOption.bind (eval? content) =
      (v.eval? content).bind fun w => w.negate.toOption) ∧
    (v.lastCode.toOption.bind (eval? content) =
      (v.eval? content).bind fun w => w.lastCode.toOption) ∧
    (v.dropLast.eval? content = (v.eval? content).map dropLast) ∧
    ∀ u, Built content u → v.eval? content ≠ some .empty → u.eval? content ≠ some .empty →
      (v.add u).toOption.bind (eval? content) =
        (v.eval? content).bind fun l => (u.eval? content).bind fun r => (l.add r).toOption :=
  ⟨eval?_negate v, eval?_lastCode hv.within_fits, eval?_dropLast hv.within_fits,
    fun _ _ => eval?_add⟩

/-- The code of the last character of a buffer with `AB` in it, and a numeral with leading zeros. -/
theorem eval?_sum_of_last_code :
    let code := symbolic (.member (.buffer "flag" (some 2)) (concrete "1"))
    Built (fun _ => "AB") code ∧ code.eval? (fun _ => "AB") = some (concrete "66") ∧
      (code.add (concrete "007")).toOption.bind (eval? fun _ => "AB") = some (concrete "73") := by
  have hbuffer : Built (fun _ => "AB") (symbolic (.buffer "flag" (some 2))) :=
    .buffer (by decide +kernel)
  have hbuilt :
      Built (fun _ => "AB") (symbolic (.member (.buffer "flag" (some 2)) (concrete "1"))) :=
    .lastCode hbuffer rfl
  refine ⟨hbuilt, by decide +kernel, ?_⟩
  rw [(eval?_commutes hbuilt).2.2.2 (concrete "007") (.text "007") (by decide +kernel)
    (by decide +kernel)]
  decide +kernel

end Value

end Lifter
