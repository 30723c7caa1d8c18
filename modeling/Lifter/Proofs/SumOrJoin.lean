import Lifter.Proofs.Characters
import Lifter.Proofs.Substitution

/-!
# Sums and joins

Adding and joining are two operations, but an expression has the same form whichever of them built
it: the operands with a plus sign between. A **reading** tells what values come to once a buffer's
content is known. No reading is right for all sums and all joins. One that takes an expression for a
sum wherever it can be one is right for all sums, and for all joins but those that could have been
built as a sum.

* `Reading`, `Reading.RespectsSums`, `Reading.RespectsJoins`: readings, and what it means to be
  right for sums and for joins.
* `Reading.not_respectsJoins`, **`not_exists_respecting_both`**: no reading is both.
* `Expression.reading`: expressions taken for sums wherever they can be.
* **`Value.exists_reading`**: it is right for all sums, and for all joins but those.
-/

namespace Lifter

open Value

/-! ## Readings -/

/-- What values come to where the buffer `name` holds the text `content`: a known text is itself,
and the code of the buffer's last character is that of the last character of `content`. -/
structure Reading (name content : String) where
  text : Value → String
  known : ∀ t, text (concrete t) = t
  lastCode : ∀ c v, content.toList.getLast? = some c →
    (symbolic (.buffer name (some content.length))).lastCode = .ok v →
      text v = Text.decimal c.toNat

namespace Reading

variable {name content : String}

/-- Sums come to the sum of what their operands come to, if that has a sum. -/
def RespectsSums (reading : Reading name content) : Prop :=
  ∀ l r w, (concrete (reading.text l)).add (concrete (reading.text r)) = .ok w →
    ∃ v, l.add r = .ok v ∧ concrete (reading.text v) = w

/-- Joins come to the join of what their operands come to. -/
def RespectsJoins (reading : Reading name content) : Prop :=
  ∀ l r, concrete (reading.text (l.concat r)) =
    (concrete (reading.text l)).concat (concrete (reading.text r))

end Reading

namespace Value

variable {content s t : String} {v l r w : Value}

/-- Nothing is added to a numeral by a zero. -/
theorem add_zero {n : Int} (h : Integer.InRange n) :
    (ofInt n).add (concrete "0") = .ok (ofInt n) := by
  have hzero : Integer.read? "0" = some 0 := by decide
  have hchecked : Integer.checked? n = some n := Integer.checked?_eq_some_iff.mpr ⟨rfl, h⟩
  rw [← toOption_eq_some_iff, ofInt, toOption_add_texts (ofInt_ne_empty n) (by decide),
    Integer.read?_signedDecimal h, hzero, Option.bind_some, Option.bind_some, Int.add_zero, checked,
    hchecked]
  rfl

end Value

/-- **No reading is right for sums and for joins.** The last code of the buffer with a zero added to
it, and joined to it, are one expression. -/
theorem Reading.not_respectsJoins {name content : String} (hcontent : content ≠ "")
    (reading : Reading name content) (hsums : reading.RespectsSums) : ¬ reading.RespectsJoins := by
  intro hjoins
  obtain ⟨c, hc⟩ : ∃ c, content.toList.getLast? = some c :=
    Option.ne_none_iff_exists'.mp fun h => hcontent (by simpa using h)
  obtain ⟨n, hn⟩ : ∃ n, content.length = n + 1 :=
    Nat.exists_eq_succ_of_ne_zero fun h => hcontent (by simpa using h)
  let buffer := Expression.buffer name (some (n + 1))
  let code := symbolic (.member buffer (ofNat n))
  have hcode : reading.text code = Text.decimal c.toNat :=
    reading.lastCode c code hc (by rw [hn]; rfl)
  -- read as a sum, the expression is the code itself
  have hsum : (concrete (reading.text code)).add (concrete (reading.text (concrete "0"))) =
      .ok (concrete (Text.decimal c.toNat)) := by
    rw [hcode, reading.known]
    exact add_zero (inRange_toNat c)
  obtain ⟨v, hv, hread⟩ := hsums code (concrete "0") _ hsum
  -- read as a join, it has one character more
  have hjoin := hjoins code (concrete "0")
  have hsame : code.add (concrete "0") = .ok (code.concat (concrete "0")) := by
    rw [add_symbolic_concrete, if_neg (by decide)]
    have hzero : integer "0" = .ok 0 := integer_eq_ok_iff.mpr (by decide)
    rw [hzero]
    rfl
  obtain rfl : code.concat (concrete "0") = v := Except.ok.inj (hsame.symm.trans hv)
  rw [hcode, reading.known, concat_texts] at hjoin
  have hlength := congrArg String.length (Value.concrete.inj (hjoin.symm.trans hread))
  simp at hlength

/-- A buffer of one character has no reading that is right for both. -/
theorem not_exists_respecting_both :
    ¬ ∃ reading : Reading "flag" "a", reading.RespectsSums ∧ reading.RespectsJoins :=
  fun ⟨reading, hsums, hjoins⟩ => reading.not_respectsJoins (by decide) hsums hjoins

/-! ## Expressions taken for sums -/

/-- An operand as sums have them: an expression, or the canonical numeral of an integer. -/
def Value.IsOperand (v : Value) : Prop := v.numeric.toOption = some v

instance (v : Value) : Decidable v.IsOperand := inferInstanceAs (Decidable (_ = _))

/-- What two operands with a plus sign between them come to, where they come to `s` and `t`: their
sum if both are operands of sums and there is one, and otherwise their join. -/
def plus (left right : Value) (s t : String) : String :=
  if left.IsOperand ∧ right.IsOperand then
    match (concrete s).add (concrete t) with
    | .ok (concrete sum) => sum
    | _ => s ++ t
  else s ++ t

mutual

/-- What an expression comes to if it is taken for a sum wherever it can be one; what no operation
builds is taken for the content of the buffer. -/
def Expression.reading (content : String) : Expression → String
  | .binary _ left right =>
    match left, right with
    | .concrete _, .concrete _ => content
    | _, _ => plus left right (left.reading content) (right.reading content)
  | .member _ _ => ((content.toList.getLast?).map fun c => Text.decimal c.toNat).getD content
  | _ => content

/-- What a value comes to if expressions are taken for sums. -/
def Value.reading (content : String) : Value → String
  | .concrete text => text
  | .symbolic expression => expression.reading content

end

namespace Value

variable {content s t : String} {v l r l' r' w : Value} {n : Int}

theorem isOperand_symbolic (e : Expression) : (symbolic e).IsOperand := rfl

theorem isOperand_ofInt (h : Integer.InRange n) : (ofInt n).IsOperand := by
  have hread : integer (Text.signedDecimal n) = .ok n :=
    integer_eq_ok_iff.mpr (Integer.read?_signedDecimal h)
  simp only [IsOperand, ofInt, numeric, hread]
  rfl

/-- Not both of two values are known texts. -/
def Open (l r : Value) : Prop := ∀ s t, ¬ (l = concrete s ∧ r = concrete t)

/-- A sum that builds an expression. -/
theorem add_of_numeric (hl : l ≠ .empty) (hr : r ≠ .empty) (hopen : l.Open r)
    (hl' : l.numeric = .ok l') (hr' : r.numeric = .ok r') :
    l.add r = .ok (symbolic (.binary "+" l' r')) := by
  simp only [add, absorbEmpty?_eq_none hl hr]
  split
  · exact absurd ⟨rfl, rfl⟩ (hopen _ _)
  · rw [hl', hr']
    rfl

/-- A join that builds an expression. -/
theorem concat_of_open (hl : l ≠ .empty) (hr : r ≠ .empty) (hopen : l.Open r) :
    l.concat r = symbolic (.binary "+" l r) := by
  simp only [concat, absorbEmpty?_eq_none hl hr]
  split
  · exact absurd ⟨rfl, rfl⟩ (hopen _ _)
  · rfl

theorem absorbEmpty?_left (r : Value) : absorbEmpty? .empty r = some r := by
  unfold absorbEmpty?
  split
  · rename_i hr
    rw [isEmpty_iff.mp hr]
  · rfl

theorem add_empty (l : Value) : l.add .empty = .ok l := rfl

theorem empty_add (r : Value) : Value.empty.add r = .ok r := by
  simp only [add, absorbEmpty?_left]

theorem concat_empty (l : Value) : l.concat .empty = l := rfl

theorem empty_concat (r : Value) : Value.empty.concat r = r := by
  simp only [concat, absorbEmpty?_left]

/-! ## What a plus sign comes to -/

theorem plus_of_add {sum : String} (hl : l.IsOperand) (hr : r.IsOperand)
    (h : (concrete s).add (concrete t) = .ok (concrete sum)) : plus l r s t = sum := by
  simp only [plus, if_pos (And.intro hl hr), h]

theorem plus_cases (l r : Value) (s t : String) :
    plus l r s t = s ++ t ∨ l.IsOperand ∧ r.IsOperand ∧
      (concrete s).add (concrete t) = .ok (concrete (plus l r s t)) := by
  unfold plus
  split
  · rename_i h
    split
    · rename_i sum hsum
      exact Or.inr ⟨h.1, h.2, hsum⟩
    · exact Or.inl rfl
  · exact Or.inl rfl

theorem plus_ne_empty (h : s ≠ "" ∨ t ≠ "") : plus l r s t ≠ "" := by
  rcases plus_cases l r s t with hp | ⟨-, -, hp⟩
  · rw [hp]
    simpa [imp_iff_not_or] using h
  · intro he
    rw [he] at hp
    rcases add_cases hp with ⟨ht, hs⟩ | ⟨hs, ht⟩ | ⟨n, -, hn⟩ | ⟨_, _, -, -, hne, -⟩
    · exact h.elim (fun h => h (Value.concrete.inj hs).symm) fun h => h (Value.concrete.inj ht)
    · exact h.elim (fun h => h (Value.concrete.inj hs)) fun h => h (Value.concrete.inj ht).symm
    · exact ofInt_ne_empty n hn.symm
    · cases hne

@[simp] theorem reading_concrete (t : String) : (concrete t).reading content = t := by
  simp [Value.reading]

theorem reading_empty : concrete (Value.empty.reading content) = .empty := by
  rw [Value.empty, reading_concrete]

@[simp] theorem reading_symbolic (e : Expression) :
    (symbolic e).reading content = e.reading content := by
  simp [Value.reading]

theorem reading_binary (hopen : l.Open r) (operator : String) :
    (Expression.binary operator l r).reading content =
      plus l r (l.reading content) (r.reading content) := by
  rw [Expression.reading]
  exact fun s t hs ht => hopen s t ⟨hs, ht⟩

end Value

theorem Expression.reading_ne_empty {content : String} (h : content ≠ "") :
    ∀ e : Expression, e.reading content ≠ ""
  | .identifier _ => by simpa [Expression.reading] using h
  | .buffer _ _ => by simpa [Expression.reading] using h
  | .unary _ _ => by simpa [Expression.reading] using h
  | .member _ _ => by
    rw [Expression.reading]
    cases content.toList.getLast? with
    | none => exact h
    | some c => exact fun he => ofInt_ne_empty c.toNat (congrArg Value.concrete he)
  | .binary _ (.concrete _) (.concrete _) => by simpa [Expression.reading] using h
  | .binary _ (.symbolic e) right => by
    rw [reading_binary fun _ _ h => by cases h.1]
    exact plus_ne_empty (Or.inl (by simpa using e.reading_ne_empty h))
  | .binary _ left (.symbolic e) => by
    rw [reading_binary fun _ _ h => by cases h.2]
    exact plus_ne_empty (Or.inr (by simpa using e.reading_ne_empty h))

namespace Value

variable {content s t : String} {v l r l' r' w : Value} {n : Int}

/-- Only the empty text comes to nothing. -/
theorem reading_ne_empty (h : content ≠ "") (hv : v ≠ .empty) :
    concrete (v.reading content) ≠ .empty := by
  intro he
  have ht : v.reading content = "" := Value.concrete.inj he
  cases v with
  | concrete t => exact hv (congrArg concrete (by simpa using ht))
  | symbolic e => exact e.reading_ne_empty h (by simpa using ht)

/-! ## Sums -/

/-- A value that comes to an integer has a form that sums can have, which comes to the same
integer. -/
theorem exists_numeric (hn : Integer.read? (v.reading content) = some n) :
    ∃ w, v.numeric = .ok w ∧ w.IsOperand ∧ w ≠ .empty ∧
      Integer.read? (w.reading content) = some n := by
  cases v with
  | concrete s =>
    have hs : integer s = .ok n := integer_eq_ok_iff.mpr (by simpa using hn)
    have hrange := Integer.inRange_of_read? hn
    refine ⟨ofInt n, by simp [numeric, hs, Except.map], isOperand_ofInt hrange,
      ofInt_ne_empty n, ?_⟩
    rw [ofInt, reading_concrete]
    exact Integer.read?_signedDecimal hrange
  | symbolic e => exact ⟨symbolic e, rfl, isOperand_symbolic e, by rintro ⟨⟩, hn⟩

/-- **A sum that builds an expression** comes to the sum of what the operands come to. -/
theorem reading_add_of_open (hcontent : content ≠ "") (hl : l ≠ .empty) (hr : r ≠ .empty)
    (hopen : l.Open r)
    (h : (concrete (l.reading content)).add (concrete (r.reading content)) = .ok w) :
    ∃ v, l.add r = .ok v ∧ concrete (v.reading content) = w := by
  have hsum := toOption_eq_some_iff.mpr h
  rw [toOption_add_texts (reading_ne_empty hcontent hl) (reading_ne_empty hcontent hr)] at hsum
  obtain ⟨m, hm, hsum⟩ := Option.bind_eq_some_iff.mp hsum
  obtain ⟨n, hn, hsum⟩ := Option.bind_eq_some_iff.mp hsum
  obtain ⟨l', hl', hlop, hlne, hlread⟩ := exists_numeric hm
  obtain ⟨r', hr', hrop, hrne, hrread⟩ := exists_numeric hn
  have hopen' : l'.Open r' := by
    rintro s t ⟨rfl, rfl⟩
    obtain ⟨s', rfl⟩ := exists_concrete_of_numeric hl'
    obtain ⟨t', rfl⟩ := exists_concrete_of_numeric hr'
    exact hopen s' t' ⟨rfl, rfl⟩
  -- the canonical operands have the same sum
  have hsum' : (concrete (l'.reading content)).add (concrete (r'.reading content)) = .ok w := by
    rw [← toOption_eq_some_iff, toOption_add_texts (reading_ne_empty hcontent hlne)
      (reading_ne_empty hcontent hrne), hlread, hrread]
    exact hsum
  obtain ⟨sum, rfl⟩ := (isText_concrete _).add (isText_concrete _) (toOption_eq_some_iff.mpr hsum')
  refine ⟨_, add_of_numeric hl hr hopen hl' hr', ?_⟩
  rw [reading_symbolic, reading_binary hopen', plus_of_add hlop hrop hsum']

/-- **Sums** come to the sum of what the operands come to. -/
theorem reading_add (hcontent : content ≠ "")
    (h : (concrete (l.reading content)).add (concrete (r.reading content)) = .ok w) :
    ∃ v, l.add r = .ok v ∧ concrete (v.reading content) = w := by
  by_cases hr : r = .empty
  · subst hr
    rw [reading_empty, add_empty] at h
    exact ⟨l, add_empty l, Except.ok.inj h⟩
  by_cases hl : l = .empty
  · subst hl
    rw [reading_empty, empty_add] at h
    exact ⟨r, empty_add r, Except.ok.inj h⟩
  cases l with
  | symbolic e => exact reading_add_of_open hcontent hl hr (by rintro _ _ ⟨⟨⟩, -⟩) h
  | concrete s =>
    cases r with
    | symbolic e => exact reading_add_of_open hcontent hl hr (by rintro _ _ ⟨-, ⟨⟩⟩) h
    | concrete t =>
      rw [reading_concrete, reading_concrete] at h
      obtain ⟨sum, rfl⟩ := (isText_concrete s).add (isText_concrete t) (toOption_eq_some_iff.mpr h)
      exact ⟨_, h, by rw [reading_concrete]⟩

/-! ## Joins -/

/-- **A join that builds an expression** comes to the join of what the operands come to, unless a
sum builds the same expression and the operands have one. -/
theorem reading_concat_of_open (content : String) (hl : l ≠ .empty) (hr : r ≠ .empty)
    (hopen : l.Open r) :
    (l.concat r).reading content = l.reading content ++ r.reading content ∨
      l.add r = .ok (l.concat r) ∧
        (concrete (l.reading content)).add (concrete (r.reading content)) =
          .ok (concrete ((l.concat r).reading content)) := by
  rw [concat_of_open hl hr hopen, reading_symbolic, reading_binary hopen]
  rcases plus_cases l r (l.reading content) (r.reading content) with hjoin | ⟨hlop, hrop, hsum⟩
  · exact Or.inl hjoin
  · have hnumeric {v : Value} (h : v.IsOperand) : v.numeric = .ok v := toOption_eq_some_iff.mp h
    exact Or.inr ⟨add_of_numeric hl hr hopen (hnumeric hlop) (hnumeric hrop), hsum⟩

/-- **Joins** come to the join of what the operands come to, with the same exception. -/
theorem reading_concat (l r : Value) :
    concrete ((l.concat r).reading content) =
        (concrete (l.reading content)).concat (concrete (r.reading content)) ∨
      l.Joins r ∧ l.add r = .ok (l.concat r) ∧
        (concrete (l.reading content)).add (concrete (r.reading content)) =
          .ok (concrete ((l.concat r).reading content)) := by
  by_cases hr : r = .empty
  · subst hr
    rw [reading_empty, concat_empty, concat_empty]
    exact Or.inl rfl
  by_cases hl : l = .empty
  · subst hl
    rw [reading_empty, empty_concat, empty_concat]
    exact Or.inl rfl
  rw [concat_texts]
  by_cases hopen : l.Open r
  · rcases reading_concat_of_open content hl hr hopen with hjoin | hsum
    · exact Or.inl (congrArg concrete hjoin)
    · exact Or.inr ⟨concat_of_open hl hr hopen, hsum⟩
  · obtain ⟨s, t, rfl, rfl⟩ : ∃ s t, l = concrete s ∧ r = concrete t := by
      simpa [Open] using hopen
    rw [concat_texts, reading_concrete, reading_concrete, reading_concrete]
    exact Or.inl rfl

theorem exists_member_of_lastCode {e : Expression} (h : (symbolic e).lastCode = .ok v) :
    ∃ property, v = symbolic (.member e property) := by
  unfold lastCode at h
  split at h
  · cases ‹symbolic e = _›
    exact ⟨_, (Except.ok.inj h).symm⟩
  · cases ‹symbolic e = _›
    exact ⟨_, (Except.ok.inj h).symm⟩
  · cases ‹symbolic e = _›

/-- The reading that takes expressions for sums. -/
def sums (name content : String) : Reading name content where
  text := Value.reading content
  known := reading_concrete
  lastCode c v hc hv := by
    obtain ⟨property, rfl⟩ := exists_member_of_lastCode hv
    simp [Expression.reading, hc]

/-- **One reading is right for all sums** and for all joins, except where a join builds an
expression that a sum of the same operands builds as well, and what these come to can be added:
there the expression comes to the sum. -/
theorem exists_reading (name : String) {content : String} (hcontent : content ≠ "") :
    ∃ reading : Reading name content, reading.RespectsSums ∧
      ∀ l r : Value, concrete (reading.text (l.concat r)) =
          (concrete (reading.text l)).concat (concrete (reading.text r)) ∨
        l.Joins r ∧ l.add r = .ok (l.concat r) ∧
          (concrete (reading.text l)).add (concrete (reading.text r)) =
            .ok (concrete (reading.text (l.concat r))) :=
  ⟨sums name content, fun _ _ _ => reading_add hcontent, reading_concat⟩

/-- A letter's code with a numeral added, and with a text joined that is no numeral. -/
theorem exists_reading_of_letter :
    let code := symbolic (.member (.buffer "flag" (some 1)) (concrete "0"))
    ∃ reading : Reading "flag" "a",
      (∀ v, code.add (concrete "01") = .ok v → reading.text v = "98") ∧
        reading.text (code.concat (concrete "01")) = "9701" := by
  intro code
  obtain ⟨reading, hsums, hjoins⟩ := exists_reading "flag" (show "a" ≠ "" by decide)
  have hcode : reading.text code = "97" := reading.lastCode 'a' code rfl rfl
  refine ⟨reading, fun v hv => ?_, ?_⟩
  · have hsum : (concrete "97").add (concrete "01") = .ok (concrete "98") :=
      toOption_eq_some_iff.mp (by decide +kernel)
    obtain ⟨w, hw, hread⟩ := hsums code (concrete "01") _ (by rw [hcode, reading.known, hsum])
    obtain rfl : w = v := Except.ok.inj (hw.symm.trans hv)
    exact Value.concrete.inj hread
  · rcases hjoins code (concrete "01") with hjoin | ⟨-, hsame, -⟩
    · rw [hcode, reading.known] at hjoin
      exact Value.concrete.inj hjoin
    · -- the sum has the numeral in canonical form
      exact absurd (toOption_eq_some_iff.mpr hsame) (by decide +kernel)

end Value

end Lifter
