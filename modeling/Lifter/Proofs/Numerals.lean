import Mathlib.Data.List.TakeWhile
import Lifter.Integer

/-!
# What a text denotes

Registers hold texts, and some instructions read them as integers. Which integer that is can be said
without reading: the text is a numeral with white space around it. A numeral has an optional sign and
at least one digit, leading zeros included.

* `Integer.Numeral`, `Integer.Denotes`: the written forms of an integer.
* `Text.trim_between`, `Text.exists_trim`: trimming removes the white space around a text, and nothing
  else.
* **`Integer.read?_eq_some_iff`**: reading a text gives the integer that it denotes, if that is in
  range.
-/

namespace Lifter

namespace Text

variable {cs before core after : List Char}

theorem trim_between (hbefore : ∀ c ∈ before, isBlank c = true)
    (hcore : ∀ c ∈ core, isBlank c = false) (hafter : ∀ c ∈ after, isBlank c = true) :
    trim (before ++ core ++ after) = core := by
  rw [trim, List.append_assoc, List.dropWhile_append_of_pos hbefore]
  cases core with
  | nil =>
    rw [List.nil_append, List.dropWhile_eq_nil_iff.mpr hafter]
    rfl
  | cons c core =>
    have hfirst : ¬ isBlank c = true := by simp [hcore c List.mem_cons_self]
    rw [List.cons_append, List.dropWhile_cons_of_neg hfirst, ← List.cons_append, List.reverse_append,
      List.dropWhile_append_of_pos (by simpa using hafter)]
    have hlast := trim_eq_self hcore
    rwa [trim, List.dropWhile_cons_of_neg hfirst] at hlast

theorem exists_trim (cs : List Char) : ∃ before after, cs = before ++ trim cs ++ after ∧
    (∀ c ∈ before, isBlank c = true) ∧ ∀ c ∈ after, isBlank c = true := by
  refine ⟨cs.takeWhile isBlank, ((cs.dropWhile isBlank).reverse.takeWhile isBlank).reverse, ?_,
    fun c hc => List.mem_takeWhile_imp hc,
    fun c hc => List.mem_takeWhile_imp (List.mem_reverse.mp hc)⟩
  rw [trim, List.append_assoc, ← List.reverse_append, List.takeWhile_append_dropWhile,
    List.reverse_reverse, List.takeWhile_append_dropWhile]

/-- The decimal digits of a natural number, with leading zeros or without. -/
structure Digits (cs : List Char) (n : Nat) : Prop where
  ne_nil : cs ≠ []
  isDigit : ∀ c ∈ cs, c.isDigit = true
  value : n = Nat.ofDigitChars 10 cs 0

theorem readNatural?_eq_some_iff {n : Nat} : readNatural? cs = some n ↔ Digits cs n := by
  have hdigits : (!cs.isEmpty && cs.all Char.isDigit) = true ↔
      cs ≠ [] ∧ ∀ c ∈ cs, c.isDigit = true := by
    rw [Bool.and_eq_true, Bool.not_eq_true', List.isEmpty_eq_false_iff, List.all_eq_true]
  rw [readNatural?]
  by_cases h : (!cs.isEmpty && cs.all Char.isDigit) = true
  · obtain ⟨hne, hall⟩ := hdigits.mp h
    rw [if_pos h, Option.some.injEq]
    exact ⟨fun hn => ⟨hne, hall, hn.symm⟩, fun hn => hn.value.symm⟩
  · rw [if_neg h]
    refine ⟨fun hn => ?_, fun hn => absurd (hdigits.mpr ⟨hn.ne_nil, hn.isDigit⟩) h⟩
    cases hn

end Text

namespace Integer

/-- The numerals of an integer: digits, with a sign before them or without. -/
inductive Numeral : List Char → Int → Prop
  | plain {digits : List Char} {n : Nat} : Text.Digits digits n → Numeral digits n
  | plus {digits : List Char} {n : Nat} : Text.Digits digits n → Numeral ('+' :: digits) n
  | minus {digits : List Char} {n : Nat} : Text.Digits digits n → Numeral ('-' :: digits) (-n)

/-- A text denotes an integer if it is a numeral of it with white space around it. -/
def Denotes (text : String) (n : Int) : Prop :=
  ∃ before numeral after, text.toList = before ++ numeral ++ after ∧
    (∀ c ∈ before, Text.isBlank c = true) ∧ (∀ c ∈ after, Text.isBlank c = true) ∧
      Numeral numeral n

variable {cs : List Char} {n : Int} {text : String}

theorem Numeral.not_blank (h : Numeral cs n) : ∀ c ∈ cs, Text.isBlank c = false := by
  intro c hc
  cases h with
  | plain hd => exact Text.isBlank_of_isDigit (hd.isDigit c hc)
  | plus hd =>
    rcases List.mem_cons.mp hc with rfl | hc
    · decide
    · exact Text.isBlank_of_isDigit (hd.isDigit c hc)
  | minus hd =>
    rcases List.mem_cons.mp hc with rfl | hc
    · decide
    · exact Text.isBlank_of_isDigit (hd.isDigit c hc)

theorem readChars?_eq_some_iff : readChars? cs = some n ↔ Numeral cs n := by
  constructor
  · intro h
    unfold readChars? at h
    split at h
    · obtain ⟨_, hread, rfl⟩ := Option.map_eq_some_iff.mp h
      obtain ⟨m, hm, hcast⟩ := Option.bind_eq_some_iff.mp hread
      cases hcast
      exact .minus (Text.readNatural?_eq_some_iff.mp hm)
    · obtain ⟨m, hm, rfl⟩ := Option.map_eq_some_iff.mp h
      exact .plus (Text.readNatural?_eq_some_iff.mp hm)
    · obtain ⟨m, hm, rfl⟩ := Option.map_eq_some_iff.mp h
      exact .plain (Text.readNatural?_eq_some_iff.mp hm)
  · intro h
    cases h with
    | plain hd =>
      rw [readChars?_of_isDigit hd.isDigit, Text.readNatural?_eq_some_iff.mpr hd]
      rfl
    | plus hd =>
      rw [readChars?, Text.readNatural?_eq_some_iff.mpr hd]
      rfl
    | minus hd =>
      rw [readChars?, Text.readNatural?_eq_some_iff.mpr hd]
      rfl

theorem readChars?_trim_iff : readChars? (Text.trim text.toList) = some n ↔ Denotes text n := by
  rw [readChars?_eq_some_iff]
  constructor
  · intro h
    obtain ⟨before, after, htext, hbefore, hafter⟩ := Text.exists_trim text.toList
    exact ⟨before, _, after, htext, hbefore, hafter, h⟩
  · rintro ⟨before, numeral, after, htext, hbefore, hafter, h⟩
    rw [htext, Text.trim_between hbefore h.not_blank hafter]
    exact h

/-- **Reading a text gives the integer that it denotes**, if that is in range, and nothing else. -/
theorem read?_eq_some_iff : read? text = some n ↔ Denotes text n ∧ InRange n := by
  rw [read?, Option.bind_eq_some_iff]
  constructor
  · rintro ⟨m, hm, hc⟩
    obtain ⟨rfl, hr⟩ := checked?_eq_some_iff.mp hc
    exact ⟨readChars?_trim_iff.mp hm, hr⟩
  · rintro ⟨hd, hr⟩
    exact ⟨n, readChars?_trim_iff.mpr hd, checked?_eq_some_iff.mpr ⟨rfl, hr⟩⟩

end Integer

end Lifter
