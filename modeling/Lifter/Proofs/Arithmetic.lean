import Mathlib.Algebra.Group.Int.Defs
import Mathlib.Data.List.Induction
import Lifter.Proofs.Numerals
import Lifter.Proofs.ValueClass

/-!
# Arithmetic on texts

Registers hold integers as texts, and a text may spell an integer in many ways: with a sign or
without, with zeros in front, with white space around. Results are always spelled in the shortest
way. Apart from spelling, arithmetic on texts is that of the integers. It fails where a text denotes
no integer and where a result leaves the range, and nowhere else.

* `Text.Digits.exists_zeros`: digits are those of the decimal numeral, after any number of zeros.
* `Integer.Canonical`, `Integer.canonical_iff`: the numeral that is shorter than all others.
* `Value.add_texts`, `Value.checked_eq`: sums of texts, and results that have to be in range.
* `Value.ReadsExactly`, `Value.AddsExactly`, `Value.NegatesExactly`: each outcome of an operation,
  and exactly when it comes about.
* **`Value.arithmetic_exact`**: reading, adding and changing the sign are exact.
-/

namespace Lifter

/-! ## Canonical numerals -/

namespace Text

theorem digitChar_of_isDigit {c : Char} (h : c.isDigit = true) :
    c.toNat - '0'.toNat < 10 ∧ Nat.digitChar (c.toNat - '0'.toNat) = c := by
  have hlow : 48 ≤ c.toNat := of_decide_eq_true (Bool.and_eq_true_iff.mp h).1
  have hhigh : c.toNat ≤ 57 := of_decide_eq_true (Bool.and_eq_true_iff.mp h).2
  have hall : ∀ d < 10, Nat.digitChar d = Char.ofNat (48 + d) := by decide
  have hzero : '0'.toNat = 48 := rfl
  refine ⟨by omega, ?_⟩
  rw [hall _ (by omega), hzero, Nat.add_sub_cancel' hlow, Char.ofNat_toNat]

/-- **Digits are those of the decimal numeral**, after any number of zeros. -/
theorem Digits.exists_zeros {cs : List Char} {n : Nat} (h : Digits cs n) :
    ∃ k, cs = List.replicate k '0' ++ (decimal n).toList := by
  rw [decimal, String.toList_ofList]
  induction cs using List.reverseRecOn generalizing n with
  | nil => exact absurd rfl h.ne_nil
  | append_singleton front last ih =>
    obtain ⟨hlt, hlast⟩ := digitChar_of_isDigit (h.isDigit last (by simp))
    have hvalue : n = 10 * Nat.ofDigitChars 10 front 0 + (last.toNat - '0'.toNat) := by
      rw [h.value, Nat.ofDigitChars_append, Nat.ofDigitChars_cons, Nat.ofDigitChars_nil]
    by_cases hfront : front = []
    · subst hfront
      refine ⟨0, ?_⟩
      rw [hvalue, Nat.ofDigitChars_nil, Nat.mul_zero, Nat.zero_add, Nat.toDigits_of_lt_base hlt,
        hlast]
      rfl
    · obtain ⟨k, hk⟩ := ih ⟨hfront, fun c hc => h.isDigit c (by simp [hc]), rfl⟩
      by_cases hzero : Nat.ofDigitChars 10 front 0 = 0
      · -- nothing but zeros so far
        refine ⟨k + 1, ?_⟩
        rw [hzero, Nat.toDigits_zero, ← List.replicate_succ'] at hk
        rw [hvalue, hzero, Nat.mul_zero, Nat.zero_add, Nat.toDigits_of_lt_base hlt, hlast, hk]
      · refine ⟨k, ?_⟩
        rw [hvalue, Nat.toDigits_of_base_le (by decide) (by omega),
          Nat.mul_add_div (by decide), Nat.div_eq_of_lt hlt, Nat.add_zero, Nat.mul_add_mod,
          Nat.mod_eq_of_lt hlt, hlast, ← List.append_assoc, ← hk]

/-- The decimal numeral is the shortest way to write a natural number. -/
theorem Digits.eq_or_longer {cs : List Char} {n : Nat} (h : Digits cs n) :
    cs = (decimal n).toList ∨ (decimal n).toList.length < cs.length := by
  obtain ⟨k, hk⟩ := h.exists_zeros
  by_cases hzero : k = 0
  · left
    rw [hk, hzero]
    rfl
  · right
    rw [hk, List.length_append, List.length_replicate]
    omega

theorem Digits.length_le {cs : List Char} {n : Nat} (h : Digits cs n) :
    (decimal n).toList.length ≤ cs.length := by
  rcases h.eq_or_longer with rfl | hlt
  · exact le_rfl
  · exact hlt.le

end Text

namespace Integer

variable {text text' : String} {cs : List Char} {m n : Int}

/-- The canonical numeral of an integer: every other one is longer. So it has no plus sign and no
zeros in front, and zero has no sign at all. -/
structure Canonical (text : String) (n : Int) : Prop where
  numeral : Numeral text.toList n
  shortest : ∀ other, Numeral other n → other = text.toList ∨ text.toList.length < other.length

theorem Canonical.unique (h : Canonical text n) (h' : Canonical text' n) : text = text' := by
  rcases h.shortest _ h'.numeral with heq | hlt
  · exact (String.toList_inj.mp heq).symm
  · rcases h'.shortest _ h.numeral with heq | hlt'
    · exact String.toList_inj.mp heq
    · omega

theorem signedDecimal_natCast (n : Nat) : Text.signedDecimal n = Text.decimal n := rfl

theorem toList_signedDecimal_neg {n : Nat} (h : n ≠ 0) :
    (Text.signedDecimal (-n)).toList = '-' :: (Text.decimal n).toList := by
  obtain ⟨k, rfl⟩ := Nat.exists_eq_succ_of_ne_zero h
  show (Text.signedDecimal (.negSucc k)).toList = _
  simp [Text.signedDecimal]

theorem Numeral.eq_or_longer (h : Numeral cs n) :
    cs = (Text.signedDecimal n).toList ∨ (Text.signedDecimal n).toList.length < cs.length := by
  cases h with
  | plain hd => exact hd.eq_or_longer
  | plus hd =>
    right
    rw [signedDecimal_natCast, List.length_cons]
    exact Nat.lt_succ_of_le hd.length_le
  | @minus digits m hd =>
    by_cases hm : m = 0
    · -- a zero with a sign
      subst hm
      right
      show (Text.decimal 0).toList.length < _
      rw [List.length_cons]
      exact Nat.lt_succ_of_le hd.length_le
    · rw [toList_signedDecimal_neg hm, List.length_cons, List.length_cons]
      rcases hd.eq_or_longer with rfl | hlt
      · left
        rfl
      · right
        omega

theorem canonical_signedDecimal (n : Int) : Canonical (Text.signedDecimal n) n where
  numeral := readChars?_eq_some_iff.mp (readChars?_signedDecimal n)
  shortest _ h := h.eq_or_longer

/-- **Integers are written canonically.** -/
theorem canonical_iff : Canonical text n ↔ text = Text.signedDecimal n := by
  constructor
  · intro h
    exact h.unique (canonical_signedDecimal n)
  · rintro rfl
    exact canonical_signedDecimal n

theorem inRange_iff : InRange n ↔ -2 ^ 63 ≤ n ∧ n < 2 ^ 63 := by
  unfold InRange bound63
  omega

end Integer

/-! ## Operations -/

section Results

variable {ε α β : Type} {x : Except ε α} {f : α → Except ε β}

theorem bind_eq_ok_iff {b : β} : x >>= f = .ok b ↔ ∃ a, x = .ok a ∧ f a = .ok b := by
  constructor
  · exact exists_of_bind_eq_ok
  · rintro ⟨a, rfl, h⟩
    exact h

theorem bind_eq_error_iff {e : ε} :
    x >>= f = .error e ↔ x = .error e ∨ ∃ a, x = .ok a ∧ f a = .error e := by
  cases x with
  | error e' =>
    show Except.error e' = .error e ↔ _
    simp
  | ok a =>
    show f a = .error e ↔ _
    simp

end Results

namespace Value

variable {t l r : String} {v : Value} {e : EvalError} {n : Int}

theorem integer_eq_error_iff :
    integer t = .error e ↔ e = .notAnInteger t ∧ ∀ n, integer t ≠ .ok n := by
  unfold integer
  cases Integer.read? t <;> simp [eq_comm]

theorem inRange_of_integer (h : integer t = .ok n) : Integer.InRange n :=
  Integer.inRange_of_read? (integer_eq_ok_iff.mp h)

theorem integer_of_canonical (h : Integer.Canonical t n) (hr : Integer.InRange n) :
    integer t = .ok n := by
  rw [integer_eq_ok_iff, Integer.canonical_iff.mp h]
  exact Integer.read?_signedDecimal hr

theorem eq_ofInt_iff : v = ofInt n ↔ ∃ text, Integer.Canonical text n ∧ v = concrete text := by
  simp only [Integer.canonical_iff, exists_eq_left]
  rfl

theorem checked_eq (n : Int) :
    checked n = if Integer.InRange n then .ok (ofInt n) else .error .overflow := by
  unfold checked Integer.checked?
  split_ifs <;> rfl

theorem checked_eq_ok_iff : checked n = .ok v ↔
    Integer.InRange n ∧ ∃ text, Integer.Canonical text n ∧ v = concrete text := by
  rw [checked_eq, ← eq_ofInt_iff]
  split_ifs with h <;> simp [h, eq_comm]

theorem checked_eq_error_iff : checked n = .error e ↔ ¬ Integer.InRange n ∧ e = .overflow := by
  rw [checked_eq]
  split_ifs with h <;> simp [h, eq_comm]

theorem add_texts (hl : l ≠ "") (hr : r ≠ "") : (concrete l).add (concrete r) =
    integer l >>= fun m => integer r >>= fun n => checked (m + n) := by
  have hnone : absorbEmpty? (concrete l) (concrete r) = none :=
    absorbEmpty?_eq_none (fun h => hl (Value.concrete.inj h)) fun h => hr (Value.concrete.inj h)
  simp only [add, hnone]

theorem negate_text (s : String) :
    (concrete s).negate = integer s >>= fun n => checked (-n) := rfl

/-! ## Exactness -/

/-- A text is read as the integer that it denotes, from the lowest of the range to the highest. Any
other text is named as it stands, with its white space. -/
structure ReadsExactly (s : String) : Prop where
  ok_iff : ∀ n, integer s = .ok n ↔ Integer.Denotes s n ∧ -2 ^ 63 ≤ n ∧ n < 2 ^ 63
  error_iff : ∀ e, integer s = .error e ↔
    e = .notAnInteger s ∧ ∀ n, Integer.Denotes s n → ¬ (-2 ^ 63 ≤ n ∧ n < 2 ^ 63)

/-- The sum of two texts is the canonical numeral of the sum of their integers, which is read back,
unless this leaves the range. If not both are integers, the first that is none is named. -/
structure AddsExactly (l r : String) : Prop where
  ok_iff : ∀ v, (concrete l).add (concrete r) = .ok v ↔
    ∃ m n, integer l = .ok m ∧ integer r = .ok n ∧ (-2 ^ 63 ≤ m + n ∧ m + n < 2 ^ 63) ∧
      ∃ sum, Integer.Canonical sum (m + n) ∧ v = concrete sum
  reread : ∀ m n sum, integer l = .ok m → integer r = .ok n →
    (concrete l).add (concrete r) = .ok (concrete sum) → integer sum = .ok (m + n)
  error_iff : ∀ e, (concrete l).add (concrete r) = .error e ↔
    (e = .overflow ∧ ∃ m n, integer l = .ok m ∧ integer r = .ok n ∧
      ¬ (-2 ^ 63 ≤ m + n ∧ m + n < 2 ^ 63)) ∨
    (e = .notAnInteger l ∧ ∀ m, integer l ≠ .ok m) ∨
    (e = .notAnInteger r ∧ (∃ m, integer l = .ok m) ∧ ∀ n, integer r ≠ .ok n)

/-- The sign of every integer but the lowest can be changed, and changed back. -/
structure NegatesExactly (s : String) : Prop where
  ok_iff : ∀ v, (concrete s).negate = .ok v ↔
    ∃ n, integer s = .ok n ∧ n ≠ -2 ^ 63 ∧
      ∃ opposite, Integer.Canonical opposite (-n) ∧ v = concrete opposite
  error_iff : ∀ e, (concrete s).negate = .error e ↔
    (e = .overflow ∧ integer s = .ok (-2 ^ 63)) ∨
    (e = .notAnInteger s ∧ ∀ n, integer s ≠ .ok n)
  twice : ∀ n, integer s = .ok n → n ≠ -2 ^ 63 →
    ∃ text, Integer.Canonical text n ∧ (concrete s).negate >>= negate = .ok (concrete text)

theorem readsExactly (s : String) : ReadsExactly s where
  ok_iff n := by rw [integer_eq_ok_iff, Integer.read?_eq_some_iff, Integer.inRange_iff]
  error_iff e := by
    rw [integer_eq_error_iff]
    refine and_congr_right' (forall_congr' fun n => ?_)
    rw [ne_eq, integer_eq_ok_iff, Integer.read?_eq_some_iff, Integer.inRange_iff, not_and]

theorem addsExactly (hl : l ≠ "") (hr : r ≠ "") : AddsExactly l r where
  ok_iff v := by
    simp only [add_texts hl hr, bind_eq_ok_iff, checked_eq_ok_iff, ← Integer.inRange_iff]
    constructor
    · rintro ⟨m, hm, n, hn, h⟩
      exact ⟨m, n, hm, hn, h⟩
    · rintro ⟨m, n, hm, hn, h⟩
      exact ⟨m, hm, n, hn, h⟩
  reread m n sum hm hn h := by
    rw [add_texts hl hr, hm, hn] at h
    obtain ⟨hr, text, hcanonical, hsum⟩ := checked_eq_ok_iff.mp h
    cases hsum
    exact integer_of_canonical hcanonical hr
  error_iff e := by
    simp only [add_texts hl hr, bind_eq_error_iff, integer_eq_error_iff, checked_eq_error_iff,
      ← Integer.inRange_iff]
    constructor
    · rintro (⟨rfl, hl⟩ | ⟨m, hm, ⟨rfl, hr⟩ | ⟨n, hn, hover, rfl⟩⟩)
      · exact .inr (.inl ⟨rfl, hl⟩)
      · exact .inr (.inr ⟨rfl, ⟨m, hm⟩, hr⟩)
      · exact .inl ⟨rfl, m, n, hm, hn, hover⟩
    · rintro (⟨rfl, m, n, hm, hn, hover⟩ | ⟨rfl, hl⟩ | ⟨rfl, ⟨m, hm⟩, hr⟩)
      · exact .inr ⟨m, hm, .inr ⟨n, hn, hover, rfl⟩⟩
      · exact .inl ⟨rfl, hl⟩
      · exact .inr ⟨m, hm, .inl ⟨rfl, hr⟩⟩

/-- Only the lowest integer has no opposite in range. -/
theorem inRange_neg_iff (h : Integer.InRange n) : Integer.InRange (-n) ↔ n ≠ -2 ^ 63 := by
  rw [Integer.inRange_iff] at h ⊢
  omega

theorem negatesExactly (s : String) : NegatesExactly s where
  ok_iff v := by
    simp only [negate_text, bind_eq_ok_iff, checked_eq_ok_iff]
    refine exists_congr fun n => and_congr_right fun hn => ?_
    rw [inRange_neg_iff (inRange_of_integer hn)]
  error_iff e := by
    simp only [negate_text, bind_eq_error_iff, integer_eq_error_iff, checked_eq_error_iff]
    constructor
    · rintro (h | ⟨n, hn, hover, rfl⟩)
      · exact .inr h
      · rw [inRange_neg_iff (inRange_of_integer hn), not_not] at hover
        exact .inl ⟨rfl, hover ▸ hn⟩
    · rintro (⟨rfl, hlowest⟩ | h)
      · refine .inr ⟨_, hlowest, ?_, rfl⟩
        rw [inRange_neg_iff (inRange_of_integer hlowest), not_not]
      · exact .inl h
  twice n hn hne := by
    have hr := inRange_of_integer hn
    have hopposite : Integer.InRange (-n) := (inRange_neg_iff hr).mpr hne
    have hread : integer (Text.signedDecimal (-n)) = .ok (-n) :=
      integer_of_canonical (Integer.canonical_signedDecimal _) hopposite
    refine ⟨_, Integer.canonical_signedDecimal n, ?_⟩
    rw [negate_text, hn]
    show checked (-n) >>= negate = _
    rw [checked_eq, if_pos hopposite]
    show (concrete (Text.signedDecimal (-n))).negate = _
    rw [negate_text, hread]
    show checked (- -n) = _
    rw [Int.neg_neg, checked_eq, if_pos hr]
    rfl

/-- **Arithmetic on texts is exact.** A text is read as the integer that it denotes, if this is in
range. Sums and opposites of integers are written canonically. A result that leaves the range is
reported and never wrapped, and so is the first text that is no integer. -/
theorem arithmetic_exact :
    (∀ s, ReadsExactly s) ∧ (∀ l r, l ≠ "" → r ≠ "" → AddsExactly l r) ∧
      ∀ s, NegatesExactly s :=
  ⟨readsExactly, fun _ _ => addsExactly, negatesExactly⟩

/-- One more than the highest integer, which is written with a leading zero, after a no-break space
and before an ideographic one; and the opposite of the lowest. -/
theorem overflow_at_limits :
    (concrete "\u00a009223372036854775807\u3000").add (concrete "+1") = .error .overflow ∧
      (concrete "-9223372036854775808").negate = .error .overflow := by
  have hhighest : integer "\u00a009223372036854775807\u3000" = .ok (2 ^ 63 - 1) :=
    integer_eq_ok_iff.mpr (by decide +kernel)
  have hone : integer "+1" = .ok 1 := integer_eq_ok_iff.mpr (by decide)
  have hlowest : integer "-9223372036854775808" = .ok (-2 ^ 63) :=
    integer_eq_ok_iff.mpr (by decide +kernel)
  obtain ⟨-, hadds, hnegates⟩ := arithmetic_exact
  constructor
  · refine ((hadds _ _ (by decide) (by decide)).error_iff _).mpr (.inl ?_)
    exact ⟨rfl, _, _, hhighest, hone, by omega⟩
  · exact ((hnegates _).error_iff _).mpr (.inl ⟨rfl, hlowest⟩)

end Value

end Lifter
