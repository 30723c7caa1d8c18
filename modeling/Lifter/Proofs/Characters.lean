import Lifter.Proofs.Arithmetic

/-!
# Characters and their codes

The code of a character is kept as a numeral, like every integer. Taking the code of the last
character and writing the character of a code undo each other, and a text is put together again from
its last character and the rest. Integers that are no Unicode scalar values are refused as they are,
negative ones and ones of more than 32 bits too.

* `Integer.IsScalar`, `Integer.isScalar_iff`: the integers that are codes of characters.
* `Value.scalar?_eq_some_iff`, `Value.scalar?_eq_none_iff`: the character of an integer.
* `Value.lastCode_text`, `Value.character_eq_ok_iff`, `Value.character_eq_error_iff`: the operations
  on known texts.
* **`Value.characters_invert`**: operations on characters undo each other.
-/

namespace Lifter

variable {c : Char} {n : Int}

/-! ## Scalar values -/

/-- Unicode scalar values: the code points that are no surrogates. -/
def Integer.IsScalar (n : Int) : Prop := 0 ≤ n ∧ n ≤ 0x10FFFF ∧ ¬ (0xD800 ≤ n ∧ n ≤ 0xDFFF)

instance (n : Int) : Decidable (Integer.IsScalar n) := inferInstanceAs (Decidable (_ ∧ _))

theorem Text.charOfCode?_eq_some_iff {code : Nat} : charOfCode? code = some c ↔ c.toNat = code := by
  constructor
  · intro h
    by_cases hvalid : code.isValidChar
    · rw [charOfCode?, dif_pos hvalid] at h
      cases h
      rfl
    · rw [charOfCode?, dif_neg hvalid] at h
      cases h
  · rintro rfl
    exact charOfCode?_toNat c

/-- **The integers that are codes of characters.** -/
theorem Integer.isScalar_iff : IsScalar n ↔ ∃ c : Char, (c.toNat : Int) = n := by
  unfold IsScalar
  constructor
  · rintro ⟨hlow, hhigh, hgap⟩
    have hvalid : n.toNat.isValidChar := by
      unfold Nat.isValidChar
      omega
    refine ⟨Char.ofNatAux n.toNat hvalid, ?_⟩
    show (n.toNat : Int) = n
    exact Int.toNat_of_nonneg hlow
  · rintro ⟨c, rfl⟩
    have hvalid : c.toNat.isValidChar := c.valid
    unfold Nat.isValidChar at hvalid
    omega

namespace Value

variable {s : String} {v : Value} {e : EvalError}

theorem inRange_toNat (c : Char) : Integer.InRange (Int.ofNat c.toNat) := by
  obtain ⟨hlow, hhigh, -⟩ := Integer.isScalar_iff.mpr ⟨c, rfl⟩
  rw [Integer.inRange_iff, Int.ofNat_eq_natCast]
  omega

theorem scalar?_eq_some_iff : scalar? n = some c ↔ (c.toNat : Int) = n := by
  cases n with
  | ofNat code =>
    show Text.charOfCode? code = some c ↔ _
    rw [Text.charOfCode?_eq_some_iff, Int.ofNat_eq_natCast, Int.natCast_inj]
  | negSucc k =>
    show none = some c ↔ _
    simp

theorem scalar?_eq_none_iff : scalar? n = none ↔ ¬ Integer.IsScalar n := by
  rw [Integer.isScalar_iff, Option.eq_none_iff_forall_ne_some, not_exists]
  exact forall_congr' fun c => not_congr scalar?_eq_some_iff

/-! ## Operations on known texts -/

theorem lastCode_text (h : s.toList.getLast? = some c) :
    (concrete s).lastCode = .ok (ofInt c.toNat) := by
  simp only [lastCode, h]
  rfl

theorem integer_code (c : Char) : integer (Text.signedDecimal c.toNat) = .ok c.toNat :=
  integer_of_canonical (Integer.canonical_signedDecimal _) (inRange_toNat c)

theorem character_text (s : String) : (concrete s).character = integer s >>= fun n =>
    match scalar? n with
    | some c => .ok (concrete (String.singleton c))
    | none => .error (.invalidCode n) := rfl

/-- **When there is a character to write**, and which. -/
theorem character_eq_ok_iff : (concrete s).character = .ok v ↔
    ∃ c : Char, integer s = .ok (c.toNat : Int) ∧ v = concrete (String.singleton c) := by
  rw [character_text, bind_eq_ok_iff]
  constructor
  · rintro ⟨n, hs, h⟩
    split at h
    · rename_i c hc
      obtain rfl := scalar?_eq_some_iff.mp hc
      exact ⟨c, hs, (Except.ok.inj h).symm⟩
    · cases h
  · rintro ⟨c, hs, rfl⟩
    refine ⟨_, hs, ?_⟩
    rw [scalar?_eq_some_iff.mpr rfl]

/-- **When there is none**, and why. -/
theorem character_eq_error_iff : (concrete s).character = .error e ↔
    (∃ n, integer s = .ok n ∧ ¬ Integer.IsScalar n ∧ e = .invalidCode n) ∨
    (e = .notAnInteger s ∧ ∀ n, integer s ≠ .ok n) := by
  rw [character_text, bind_eq_error_iff, integer_eq_error_iff, or_comm]
  refine or_congr_left (exists_congr fun n => and_congr_right fun _ => ?_)
  rw [← scalar?_eq_none_iff]
  cases scalar? n <;> simp [eq_comm]

/-- A text is put together again from its last character, found through its code, and the rest. -/
theorem exists_concat_last (hs : s ≠ "") :
    ∃ code last, (concrete s).lastCode = .ok code ∧ code.character = .ok last ∧
      (concrete s).dropLast.concat last = concrete s := by
  have hne : s.toList ≠ [] := fun h => hs (String.toList_eq_nil_iff.mp h)
  let c := s.toList.getLast hne
  refine ⟨ofInt c.toNat, concrete (String.singleton c),
    lastCode_text (List.getLast?_eq_some_getLast hne),
    character_eq_ok_iff.mpr ⟨c, integer_code c, rfl⟩, ?_⟩
  show (concrete (String.ofList s.toList.dropLast)).concat _ = _
  rw [concat_texts]
  congr 1
  apply String.toList_inj.mp
  rw [String.toList_append, String.toList_ofList, String.toList_singleton]
  exact List.dropLast_concat_getLast hne

/-- **Operations on characters undo each other.** From the code of its last character and the rest,
a text is put together again. A text gives a character if it denotes a Unicode scalar value, and
this is then the code of the character. Any other integer is refused and named, and so is a text
that denotes none. -/
theorem characters_invert (s : String) :
    (s ≠ "" → ∃ code last, (concrete s).lastCode = .ok code ∧ code.character = .ok last ∧
      (concrete s).dropLast.concat last = concrete s) ∧
    ((∃ v, (concrete s).character = .ok v) ↔ ∃ n, integer s = .ok n ∧ Integer.IsScalar n) ∧
    (∀ n v, integer s = .ok n → (concrete s).character = .ok v →
      ∃ text, Integer.Canonical text n ∧ v.lastCode = .ok (concrete text)) ∧
    ∀ e, (concrete s).character = .error e ↔
      (∃ n, integer s = .ok n ∧ ¬ Integer.IsScalar n ∧ e = .invalidCode n) ∨
      (e = .notAnInteger s ∧ ∀ n, integer s ≠ .ok n) := by
  refine ⟨exists_concat_last, ?_, fun n v hn hv => ?_, fun e => character_eq_error_iff⟩
  · simp only [character_eq_ok_iff, Integer.isScalar_iff]
    constructor
    · rintro ⟨v, c, hs, -⟩
      exact ⟨c.toNat, hs, c, rfl⟩
    · rintro ⟨n, hs, c, rfl⟩
      exact ⟨_, c, hs, rfl⟩
  · obtain ⟨c, hs, rfl⟩ := character_eq_ok_iff.mp hv
    obtain rfl : (c.toNat : Int) = n := Except.ok.inj (hs.symm.trans hn)
    refine ⟨_, Integer.canonical_signedDecimal _, lastCode_text ?_⟩
    rw [String.toList_singleton]
    rfl

/-- A text that ends in a character of 21 bits, and codes next to the gap and beyond 32 bits. -/
theorem characters_at_limits :
    (∃ code last, (concrete "1𝄞").lastCode = .ok code ∧ code.character = .ok last ∧
      (concrete "1𝄞").dropLast.concat last = concrete "1𝄞") ∧
    (∃ v, (concrete "57344").character = .ok v) ∧
    (concrete "57343").character = .error (.invalidCode 57343) ∧
    (concrete "4294967361").character = .error (.invalidCode 4294967361) := by
  have hread (s : String) (n : Int) (h : Integer.read? s = some n) : integer s = .ok n :=
    integer_eq_ok_iff.mpr h
  refine ⟨(characters_invert _).1 (by decide), (characters_invert _).2.1.mpr ?_,
    ((characters_invert _).2.2.2 _).mpr (.inl ?_), ((characters_invert _).2.2.2 _).mpr (.inl ?_)⟩
  · exact ⟨57344, hread _ _ (by decide +kernel), by decide⟩
  · exact ⟨57343, hread _ _ (by decide +kernel), by decide, rfl⟩
  · exact ⟨4294967361, hread _ _ (by decide +kernel), by decide, rfl⟩

end Value

end Lifter
