import Lifter.Proofs.Legible
import Lifter.Proofs.Substitution

/-!
# Expressions are read back from their text

Sums, changes of sign and operations on last characters are written without ambiguity: from the text
of a value that is made of them one can tell the value, except for the lengths of its buffers, which
are not written. A text is read from the outside in. Its last character tells operations in
parentheses from parts of objects, and from names and numerals. The left operand of a sum ends at
the first space outside parentheses, and an object that is written twice takes up one half of the
text.

* `Value.Numerical`: the values in question; `Value.withoutLengths`: values without lengths.
* `leftOperand`, `Passes`, `Value.Numerical.passes`: the first space outside parentheses, and that
  the text of such a value has none.
* `Construction`, `Construction.ofText`, **`Value.Numerical.ofText_text`**: the outermost operation
  of a value, and how it is found in the text.
* **`Value.text_eq_iff_withoutLengths`**: values with the same text.
-/

namespace Lifter

/-! ## Numerical values -/

/-- Numerals, buffers named by identifiers, and what is built from them by a change of sign, by sums
that are not sums of two numerals, and by operations on last characters. -/
inductive Value.Numerical : Value → Prop
  | numeral (n : Int) : Numerical (.ofInt n)
  | buffer {name : String} (length : Option Nat) : isIdentifier name = true →
      Numerical (.symbolic (.buffer name length))
  | negate {e : Expression} : Numerical (.symbolic e) →
      Numerical (.symbolic (.unary "-" (.symbolic e)))
  | add {l r : Value} : Numerical l → Numerical r → l.known? = none ∨ r.known? = none →
      Numerical (.symbolic (.binary "+" l r))
  | code {name : String} (length : Option Nat) (n : Nat) : isIdentifier name = true →
      Numerical (.symbolic (.member (.buffer name length) (.ofNat n)))
  | dropLast {e : Expression} : Numerical (.symbolic e) →
      Numerical (.symbolic (.member e (.concrete ":-1")))
  | lastCode {e : Expression} : Numerical (.symbolic e) →
      Numerical (.symbolic (.member e (.symbolic e.lastIndex)))

mutual

/-- An expression whose buffers are of unknown length. -/
def Expression.withoutLengths : Expression → Expression
  | .identifier name => .identifier name
  | .buffer name _ => .buffer name none
  | .unary operator argument => .unary operator argument.withoutLengths
  | .binary operator left right => .binary operator left.withoutLengths right.withoutLengths
  | .member object property => .member object.withoutLengths property.withoutLengths

/-- A value whose buffers are of unknown length. -/
def Value.withoutLengths : Value → Value
  | .concrete text => .concrete text
  | .symbolic expression => .symbolic expression.withoutLengths

end

mutual

theorem Expression.text_withoutLengths : (e : Expression) → e.withoutLengths.text = e.text
  | .identifier _ => rfl
  | .buffer _ _ => rfl
  | .unary _ argument => by
    simp only [Expression.withoutLengths, Expression.text, argument.text_withoutLengths]
  | .binary _ left right => by
    simp only [Expression.withoutLengths, Expression.text, left.text_withoutLengths,
      right.text_withoutLengths]
  | .member object property => by
    simp only [Expression.withoutLengths, Expression.text, object.text_withoutLengths,
      property.text_withoutLengths]

/-- Lengths are not written. -/
theorem Value.text_withoutLengths : (v : Value) → v.withoutLengths.text = v.text
  | .concrete _ => rfl
  | .symbolic expression => expression.text_withoutLengths

end

/-! ## The left operand of a sum -/

/-- The depth in parentheses after a character. -/
def depthAfter (depth : Nat) (c : Char) : Nat :=
  if c = '(' then depth + 1 else if c = ')' then depth - 1 else depth

/-- What stands before the first space outside parentheses, from a given depth on. -/
def leftOperand (depth : Nat) : List Char → List Char
  | [] => []
  | c :: rest => if c = ' ' ∧ depth = 0 then [] else c :: leftOperand (depthAfter depth c) rest

/-- A text that has no space outside parentheses when it stands at depth `least` or deeper, and that
closes the parentheses it opens. -/
def Passes (least : Nat) (text : List Char) : Prop :=
  ∀ depth, least ≤ depth → ∀ rest, leftOperand depth (text ++ rest) = text ++ leftOperand depth rest

namespace Passes

variable {least : Nat} {s t : List Char}

theorem append (hs : Passes least s) (ht : Passes least t) : Passes least (s ++ t) := by
  intro depth hdepth rest
  rw [List.append_assoc, hs depth hdepth, ht depth hdepth, List.append_assoc]

theorem deeper (h : Passes 0 s) : Passes 1 s := fun depth _ => h depth (Nat.zero_le depth)

/-- Parentheses hide the spaces between them. -/
theorem parenthesized (h : Passes 1 s) : Passes 0 ('(' :: (s ++ [')'])) := by
  intro depth _ rest
  simp [leftOperand, depthAfter, h (depth + 1) (Nat.succ_pos depth)]

theorem of_plain (h : ∀ c ∈ s, c ≠ '(' ∧ c ≠ ')' ∧ (c = ' ' → 0 < least)) : Passes least s := by
  intro depth hdepth rest
  induction s with
  | nil => rfl
  | cons c s ih =>
    obtain ⟨⟨hopen, hclose, hspace⟩, hs⟩ := List.forall_mem_cons.mp h
    have hkeep : ¬ (c = ' ' ∧ depth = 0) := fun ⟨hc, hzero⟩ => by
      have := hspace hc
      omega
    rw [List.cons_append, leftOperand, if_neg hkeep, depthAfter, if_neg hopen, if_neg hclose, ih hs,
      List.cons_append]

end Passes

theorem ne_of_isIdentifierChar {c mark : Char} (h : isIdentifierChar c = true)
    (hmark : isIdentifierChar mark = false := by decide) : c ≠ mark := by
  rintro rfl
  rw [h] at hmark
  cases hmark

theorem isIdentifierChar_of_mem_decimal {n : Nat} {c : Char} (h : c ∈ (Text.decimal n).toList) :
    isIdentifierChar c = true := by
  simp [isIdentifierChar, Char.isAlphanum, Text.isDigit_of_mem_decimal h]

theorem toList_signedDecimal_negSucc (n : Nat) :
    (Text.signedDecimal (.negSucc n)).toList = '-' :: (Text.decimal (n + 1)).toList := by
  simp [Text.signedDecimal]

theorem passes_of_isIdentifierChar {s : List Char} (h : ∀ c ∈ s, isIdentifierChar c = true) :
    Passes 0 s :=
  .of_plain fun c hc => ⟨ne_of_isIdentifierChar (h c hc), ne_of_isIdentifierChar (h c hc),
    fun hspace => absurd hspace (ne_of_isIdentifierChar (h c hc))⟩

theorem passes_identifier {name : String} (h : isIdentifier name = true) : Passes 0 name.toList :=
  passes_of_isIdentifierChar fun _ => isIdentifierChar_of_mem h

theorem passes_decimal (n : Nat) : Passes 0 (Text.decimal n).toList :=
  passes_of_isIdentifierChar fun _ => isIdentifierChar_of_mem_decimal

namespace Value.Numerical

variable {v : Value} {e : Expression}

/-- **No space stands outside parentheses** in the text of a numerical value. -/
theorem passes (h : Numerical v) : Passes 0 v.text.toList := by
  induction h with
  | numeral n =>
    cases n with
    | ofNat n => exact passes_decimal n
    | negSucc n =>
      have hminus : Passes 0 ['-'] := .of_plain (by simp)
      rw [Value.ofInt, Value.text, toList_signedDecimal_negSucc]
      exact hminus.append (passes_decimal (n + 1))
  | buffer length hname => exact passes_identifier hname
  | negate _ ih =>
    have hminus : Passes 1 ['-'] := .of_plain (by simp)
    simpa [Value.text, Expression.text] using (hminus.append ih.deeper).parenthesized
  | add _ _ _ ihl ihr =>
    have hplus : Passes 1 " + ".toList := .of_plain (by simp)
    simpa [Value.text, Expression.text] using
      ((ihl.deeper.append hplus).append ihr.deeper).parenthesized
  | code length n hname =>
    have hopen : Passes 0 ['['] := .of_plain (by simp)
    have hclose : Passes 0 [']'] := .of_plain (by simp)
    simpa [Value.text, Expression.text, Value.ofNat] using
      (((passes_identifier hname).append hopen).append (passes_decimal n)).append hclose
  | dropLast _ ih =>
    have hindex : Passes 0 "[:-1]".toList := .of_plain (by simp)
    simpa [Value.text, Expression.text] using ih.append hindex
  | lastCode _ ih =>
    have hopen : Passes 0 ['['] := .of_plain (by simp)
    have hclose : Passes 0 [']'] := .of_plain (by simp)
    have hlength : Passes 1 "[\"length\"] - 1".toList := .of_plain (by simp)
    simpa [Value.text, Expression.text, Expression.lastIndex] using
      ((ih.append hopen).append (ih.deeper.append hlength).parenthesized).append hclose

end Value.Numerical

/-! ## The outermost operation -/

/-- How a value is put together, from texts. -/
inductive Construction where
  | known (text : List Char)
  | name (text : List Char)
  | negation (argument : List Char)
  | sum (left right : List Char)
  | part (object property : List Char)
  | last (object : List Char)

/-- The outermost operation of a value, on the texts of its operands. -/
def Value.construction : Value → Construction
  | concrete text => .known text.toList
  | symbolic (.identifier name) => .name name.toList
  | symbolic (.buffer name _) => .name name.toList
  | symbolic (.unary _ argument) => .negation argument.text.toList
  | symbolic (.binary _ left right) => .sum left.text.toList right.text.toList
  | symbolic (.member object (.concrete property)) => .part object.text.toList property.toList
  | symbolic (.member object (.symbolic _)) => .last object.text.toList

/-- A text that starts neither with a digit nor with a minus sign. -/
def startsExpression : List Char → Bool
  | [] => false
  | c :: _ => c != '-' && !c.isDigit

/-- The operation between parentheses. A minus sign before an expression changes its sign, any other
one belongs to a numeral. -/
def Construction.ofBody (body : List Char) : Construction :=
  if body.head? = some '-' ∧ startsExpression body.tail then .negation body.tail
  else .sum (leftOperand 0 body) (body.drop ((leftOperand 0 body).length + 3))

/-- The outermost operation of a text, found from its end. The object of a last character is written
twice, with 18 more characters around. -/
def Construction.ofText (text : List Char) : Construction :=
  match text.reverse with
  | ']' :: rest =>
    if rest.head? = some ')' then .last (text.take ((text.length - 18) / 2))
    else .part (rest.dropWhile (· != '[')).tail.reverse (rest.takeWhile (· != '[')).reverse
  | ')' :: _ => .ofBody text.tail.dropLast
  | _ => if startsExpression text then .name text else .known text

namespace Construction

variable {text object property : List Char}

theorem ofText_plain (h : ∀ c ∈ text, c ≠ ']' ∧ c ≠ ')') :
    ofText text = if startsExpression text then .name text else .known text := by
  unfold ofText
  split
  · rename_i rest hreverse
    have hmem : ']' ∈ text := List.mem_reverse.mp (hreverse ▸ List.mem_cons_self)
    exact absurd rfl (h _ hmem).1
  · rename_i rest hreverse
    have hmem : ')' ∈ text := List.mem_reverse.mp (hreverse ▸ List.mem_cons_self)
    exact absurd rfl (h _ hmem).2
  · rfl

theorem ofText_parenthesized (body : List Char) :
    ofText ('(' :: (body ++ [')'])) = ofBody body := by
  simp [ofText]

theorem ofText_part (h : ∀ c ∈ property, c ≠ '[' ∧ c ≠ ')') :
    ofText (object ++ '[' :: (property ++ [']'])) = .part object property := by
  have hreverse : (object ++ '[' :: (property ++ [']'])).reverse =
      ']' :: (property.reverse ++ '[' :: object.reverse) := by
    simp
  have hhead : (property.reverse ++ '[' :: object.reverse).head? ≠ some ')' := by
    cases hproperty : property.reverse with
    | nil => simp
    | cons c rest =>
      have hmem : c ∈ property := List.mem_reverse.mp (hproperty ▸ List.mem_cons_self)
      simpa using (h c hmem).2
  have hall : ∀ c ∈ property.reverse, (c != '[') = true := by
    intro c hc
    simpa using (h c (List.mem_reverse.mp hc)).1
  rw [ofText, hreverse]
  simp only [if_neg hhead, List.takeWhile_append_of_pos hall, List.dropWhile_append_of_pos hall]
  simp

theorem ofText_last (object : List Char) :
    ofText (object ++ '[' :: '(' :: (object ++ "[\"length\"] - 1)]".toList)) = .last object := by
  have hreverse : (object ++ '[' :: '(' :: (object ++ "[\"length\"] - 1)]".toList)).reverse =
      ']' :: ')' :: ("[\"length\"] - 1".toList.reverse ++
        (object.reverse ++ '(' :: '[' :: object.reverse)) := by
    simp
  have hlength : (object ++ '[' :: '(' :: (object ++ "[\"length\"] - 1)]".toList)).length =
      2 * object.length + 18 := by
    simp
    omega
  rw [ofText, hreverse]
  simp only [List.head?_cons, if_true, hlength, Nat.add_sub_cancel]
  rw [Nat.mul_div_cancel_left _ (by decide), List.take_left]

end Construction

theorem startsExpression_append {s : List Char} (h : startsExpression s = true) (t : List Char) :
    startsExpression (s ++ t) = true := by
  cases s with
  | nil => cases h
  | cons c s => exact h

theorem startsExpression_identifier {name : String} (h : isIdentifier name = true) :
    startsExpression name.toList = true := by
  obtain ⟨c, text, hname, hc, -⟩ := isIdentifier_iff.mp h
  obtain ⟨c', text', hname', hdigit⟩ := firstNonDigit_identifier h
  obtain ⟨rfl, rfl⟩ := List.cons.inj (hname.symm.trans hname')
  have hminus : c ≠ '-' := by
    rintro rfl
    revert hc
    decide
  simp [hname, startsExpression, hminus, hdigit]

/-- A numeral starts with a digit, if it has no sign. -/
theorem exists_digit_cons (n : Nat) :
    ∃ c rest, (Text.decimal n).toList = c :: rest ∧ c.isDigit = true := by
  cases hdecimal : (Text.decimal n).toList with
  | nil =>
    rw [Text.decimal, String.toList_ofList] at hdecimal
    exact absurd hdecimal Nat.toDigits_ne_nil
  | cons c rest =>
    exact ⟨c, rest, rfl, Text.isDigit_of_mem_decimal (hdecimal ▸ List.mem_cons_self)⟩

theorem not_startsExpression_decimal (n : Nat) (rest : List Char) :
    startsExpression ((Text.decimal n).toList ++ rest) = false := by
  obtain ⟨c, digits, hdecimal, hdigit⟩ := exists_digit_cons n
  simp [hdecimal, startsExpression, hdigit]

namespace Value.Numerical

variable {v w l r : Value} {e : Expression}

theorem startsExpression_text (h : Numerical v) (hv : v.known? = none) :
    startsExpression v.text.toList = true := by
  induction h with
  | numeral n => cases hv
  | buffer length hname => exact startsExpression_identifier hname
  | negate | add => simp [Value.text, Expression.text, startsExpression]
  | code length n hname =>
    simp only [Value.text, Expression.text, String.append_assoc, String.toList_append]
    exact startsExpression_append (startsExpression_identifier hname) _
  | dropLast _ ih | lastCode _ ih =>
    simp only [Value.text, Expression.text, String.append_assoc, String.toList_append]
    exact startsExpression_append (ih rfl) _

/-- What starts with a numerical value is no change of sign. -/
theorem not_negation (h : Numerical v) (rest : List Char) :
    ¬ ((v.text.toList ++ rest).head? = some '-' ∧
      startsExpression (v.text.toList ++ rest).tail = true) := by
  rintro ⟨hhead, htail⟩
  cases hv : v.known? with
  | none =>
    have hstarts := startsExpression_append (h.startsExpression_text hv) rest
    cases htext : v.text.toList ++ rest with
    | nil => simp [htext] at hhead
    | cons c text =>
      rw [htext] at hhead hstarts
      cases hhead
      simp [startsExpression] at hstarts
  | some text =>
    cases h with
    | numeral n =>
      cases n with
      | ofNat n =>
        obtain ⟨c, digits, hdecimal, hdigit⟩ := exists_digit_cons n
        have htext : (Value.ofInt (.ofNat n)).text.toList = c :: digits := hdecimal
        rw [htext] at hhead
        cases hhead
        cases hdigit
      | negSucc n =>
        -- the minus sign of a numeral has a digit after it
        rw [Value.ofInt, Value.text, toList_signedDecimal_negSucc, List.cons_append, List.tail_cons,
          not_startsExpression_decimal] at htail
        cases htail
    | _ => cases hv

theorem ofBody_sum (hl : Numerical l) (right : List Char) :
    Construction.ofBody (l.text.toList ++ " + ".toList ++ right) =
      .sum l.text.toList right := by
  have hleft : leftOperand 0 (l.text.toList ++ " + ".toList ++ right) = l.text.toList := by
    rw [List.append_assoc, hl.passes 0 (Nat.le_refl 0)]
    simp [leftOperand]
  have hnot := hl.not_negation (" + ".toList ++ right)
  rw [← List.append_assoc] at hnot
  rw [Construction.ofBody, if_neg hnot, hleft]
  simp [List.drop_append]

theorem ofText_numeral (n : Int) :
    Construction.ofText (Text.signedDecimal n).toList = .known (Text.signedDecimal n).toList := by
  have hplain (n : Nat) : ∀ c ∈ (Text.decimal n).toList, c ≠ ']' ∧ c ≠ ')' := by
    intro c hc
    have hchar := isIdentifierChar_of_mem_decimal hc
    exact ⟨ne_of_isIdentifierChar hchar, ne_of_isIdentifierChar hchar⟩
  cases n with
  | ofNat n =>
    have hstarts := not_startsExpression_decimal n []
    rw [List.append_nil] at hstarts
    rw [Text.signedDecimal, Construction.ofText_plain (hplain n), hstarts]
    rfl
  | negSucc n =>
    rw [toList_signedDecimal_negSucc,
      Construction.ofText_plain (List.forall_mem_cons.mpr ⟨by decide, hplain (n + 1)⟩)]
    rfl

theorem ofText_identifier {name : String} (h : isIdentifier name = true) :
    Construction.ofText name.toList = .name name.toList := by
  have hplain : ∀ c ∈ name.toList, c ≠ ']' ∧ c ≠ ')' := by
    intro c hc
    have hchar := isIdentifierChar_of_mem h hc
    exact ⟨ne_of_isIdentifierChar hchar, ne_of_isIdentifierChar hchar⟩
  rw [Construction.ofText_plain hplain, if_pos (startsExpression_identifier h)]

/-- **The outermost operation of a numerical value** is found in its text. -/
theorem ofText_text (h : Numerical v) : Construction.ofText v.text.toList = v.construction := by
  cases h with
  | numeral n => exact ofText_numeral n
  | buffer length hname => exact ofText_identifier hname
  | @negate e he =>
    have htext : (Value.symbolic (.unary "-" (.symbolic e))).text.toList =
        '(' :: ('-' :: e.text.toList ++ [')']) := by
      simp [Value.text, Expression.text]
    have hstarts := he.startsExpression_text rfl
    rw [htext, Construction.ofText_parenthesized, Construction.ofBody]
    exact if_pos ⟨rfl, hstarts⟩
  | @add l r hl hr hopen =>
    have htext : (Value.symbolic (.binary "+" l r)).text.toList =
        '(' :: (l.text.toList ++ " + ".toList ++ r.text.toList ++ [')']) := by
      simp [Value.text, Expression.text]
    rw [htext, Construction.ofText_parenthesized, hl.ofBody_sum]
    rfl
  | @code name length n hname =>
    have htext : (Value.symbolic (.member (.buffer name length) (.ofNat n))).text.toList =
        name.toList ++ '[' :: ((Text.decimal n).toList ++ [']']) := by
      simp [Value.text, Expression.text, Value.ofNat]
    rw [htext, Construction.ofText_part]
    · rfl
    · intro c hc
      have hchar := isIdentifierChar_of_mem_decimal hc
      exact ⟨ne_of_isIdentifierChar hchar, ne_of_isIdentifierChar hchar⟩
  | @dropLast e he =>
    have htext : (Value.symbolic (.member e (.concrete ":-1"))).text.toList =
        e.text.toList ++ '[' :: (":-1".toList ++ [']']) := by
      simp [Value.text, Expression.text]
    rw [htext, Construction.ofText_part (by simp)]
    rfl
  | @lastCode e he =>
    have htext : (Value.symbolic (.member e (.symbolic e.lastIndex))).text.toList =
        e.text.toList ++ '[' :: '(' :: (e.text.toList ++ "[\"length\"] - 1)]".toList) := by
      simp [Value.text, Expression.text, Expression.lastIndex]
    rw [htext, Construction.ofText_last]
    rfl

theorem construction_eq (hv : Numerical v) (hw : Numerical w) (h : v.text = w.text) :
    v.construction = w.construction := by
  rw [← hv.ofText_text, h, hw.ofText_text]

/-- **Numerical values with the same text** are the same up to lengths. -/
theorem withoutLengths_eq (hv : Numerical v) (hw : Numerical w) (h : v.text = w.text) :
    v.withoutLengths = w.withoutLengths := by
  -- the outermost operations are the same, and so are the texts of their operands
  induction hv generalizing w with
  | numeral n =>
    have hsame := (numeral n).construction_eq hw h
    cases hw with
    | numeral m => exact congrArg Value.concrete h
    | _ => cases hsame
  | buffer length hname =>
    have hsame := (buffer length hname).construction_eq hw h
    cases hw with
    | buffer length' hname' =>
      simp only [Value.text, Expression.text] at h
      simp only [Value.withoutLengths, Expression.withoutLengths, h]
    | _ => cases hsame
  | negate he ih =>
    have hsame := (negate he).construction_eq hw h
    cases hw with
    | negate he' =>
      have hargument := ih he' (String.toList_inj.mp (Construction.negation.inj hsame))
      simp only [Value.withoutLengths, Expression.withoutLengths] at hargument ⊢
      rw [hargument]
    | _ => cases hsame
  | add hl hr hopen ihl ihr =>
    have hsame := (add hl hr hopen).construction_eq hw h
    cases hw with
    | add hl' hr' hopen' =>
      obtain ⟨htextl, htextr⟩ := Construction.sum.inj hsame
      have hleft := ihl hl' (String.toList_inj.mp htextl)
      have hright := ihr hr' (String.toList_inj.mp htextr)
      simp only [Value.withoutLengths, Expression.withoutLengths, hleft, hright]
    | _ => cases hsame
  | code length n hname =>
    have hsame := (code length n hname).construction_eq hw h
    cases hw with
    | code length' n' hname' =>
      obtain ⟨hobject, hproperty⟩ := Construction.part.inj hsame
      simp only [Expression.text, String.toList_inj] at hobject
      simp only [Value.withoutLengths, Expression.withoutLengths, Value.ofNat, hobject,
        String.toList_inj.mp hproperty]
    | dropLast he' =>
      obtain ⟨-, hproperty⟩ := Construction.part.inj hsame
      exact absurd (String.toList_inj.mp hproperty) (decimal_ne_all_but_last n)
    | _ => cases hsame
  | dropLast he ih =>
    have hsame := (dropLast he).construction_eq hw h
    cases hw with
    | code length' n' hname' =>
      obtain ⟨-, hproperty⟩ := Construction.part.inj hsame
      exact absurd (String.toList_inj.mp hproperty).symm (decimal_ne_all_but_last n')
    | dropLast he' =>
      have hobject := ih he' (String.toList_inj.mp (Construction.part.inj hsame).1)
      simp only [Value.withoutLengths, Expression.withoutLengths, Value.symbolic.injEq] at hobject ⊢
      rw [hobject]
    | _ => cases hsame
  | lastCode he ih =>
    have hsame := (lastCode he).construction_eq hw h
    cases hw with
    | lastCode he' =>
      have hobject := ih he' (String.toList_inj.mp (Construction.last.inj hsame))
      simp only [Value.withoutLengths, Expression.withoutLengths, Expression.lastIndex,
        Value.symbolic.injEq] at hobject ⊢
      rw [hobject]
    | _ => cases hsame

end Value.Numerical

/-- **Numerical values have the same text** exactly if they are the same up to the lengths of their
buffers. -/
theorem Value.text_eq_iff_withoutLengths {v w : Value} (hv : v.Numerical) (hw : w.Numerical) :
    v.text = w.text ↔ v.withoutLengths = w.withoutLengths := by
  refine ⟨hv.withoutLengths_eq hw, fun h => ?_⟩
  rw [← v.text_withoutLengths, h, w.text_withoutLengths]

/-- The last code of a sum with a negative numeral, over buffers of different lengths. -/
theorem Value.same_text_over_other_length :
    let last (length : Nat) : Value := .symbolic (.member
      (.binary "+" (.ofInt (-5)) (.symbolic (.buffer "flag" (some length))))
      (.symbolic (Expression.lastIndex
        (.binary "+" (.ofInt (-5)) (.symbolic (.buffer "flag" (some length)))))))
    (last 3).text = "(-5 + flag)[((-5 + flag)[\"length\"] - 1)]" ∧
      (last 4).text = "(-5 + flag)[((-5 + flag)[\"length\"] - 1)]" ∧
      last 3 ≠ last 4 ∧ (last 3).withoutLengths = (last 4).withoutLengths := by
  intro last
  have hnumerical (length : Nat) : (last length).Numerical :=
    .lastCode (.add (.numeral (-5)) (.buffer (some length) (by decide)) (.inr rfl))
  have hthree : (last 3).text = "(-5 + flag)[((-5 + flag)[\"length\"] - 1)]" := by decide +kernel
  have hfour : (last 4).text = "(-5 + flag)[((-5 + flag)[\"length\"] - 1)]" := by decide +kernel
  refine ⟨hthree, hfour, by decide, ?_⟩
  exact (text_eq_iff_withoutLengths (hnumerical 3) (hnumerical 4)).mp (hthree.trans hfour.symm)

end Lifter
