import Lifter.Bounds
import Lifter.Text.Blank
import Lifter.Text.Numeral

/-!
# Integers of the machine

The machine computes with signed 64-bit integers, and keeps them in registers as decimal numerals.
Here they are integers with a range, so that a result outside the range is seen before it is used.

* `Integer.InRange`: the range.
* `Integer.read?`: the integer that a text denotes.
* `Integer.checked?`: a result, if it is in range.
* `Integer.ofAddress`: an address read as a signed number.
-/

namespace Lifter.Integer

/-- From `-bound63` up to but not including `bound63`. -/
def InRange (n : Int) : Prop := -(bound63 : Int) ≤ n ∧ n < bound63

instance (n : Int) : Decidable (InRange n) := inferInstanceAs (Decidable (_ ∧ _))

/-- A number, if it is in range. -/
def checked? (n : Int) : Option Int := if InRange n then some n else none

/-- The integer denoted by an optional sign and at least one digit. -/
def readChars? : List Char → Option Int
  | '-' :: digits => (Text.readNatural? digits).map fun n => -(n : Int)
  | '+' :: digits => (Text.readNatural? digits).map Int.ofNat
  | digits => (Text.readNatural? digits).map Int.ofNat

/-- The integer that a text denotes. White space at the two ends does not count. -/
def read? (s : String) : Option Int := (readChars? (Text.trim s.toList)).bind checked?

/-- An unsigned 64-bit address read as a signed number. -/
def ofAddress (address : Nat) : Int := Int.bmod address bound64

theorem checked?_eq_some_iff {m n : Int} : checked? m = some n ↔ m = n ∧ InRange m := by
  unfold checked?
  split <;> simp_all

theorem inRange_of_read? {s : String} {n : Int} (h : read? s = some n) : InRange n := by
  obtain ⟨m, _, hm⟩ := Option.bind_eq_some_iff.mp h
  obtain ⟨rfl, hr⟩ := checked?_eq_some_iff.mp hm
  exact hr

theorem readChars?_of_isDigit {cs : List Char} (h : ∀ c ∈ cs, c.isDigit = true) :
    readChars? cs = (Text.readNatural? cs).map Int.ofNat := by
  unfold readChars?
  split
  · exact absurd (h '-' List.mem_cons_self) (by decide)
  · exact absurd (h '+' List.mem_cons_self) (by decide)
  · rfl

theorem readChars?_signedDecimal (n : Int) : readChars? (Text.signedDecimal n).toList = some n := by
  cases n with
  | ofNat n =>
    rw [Text.signedDecimal, readChars?_of_isDigit fun _ => Text.isDigit_of_mem_decimal,
      Text.readNatural?_decimal]
    rfl
  | negSucc n =>
    have hlist : (Text.signedDecimal (.negSucc n)).toList =
        '-' :: (Text.decimal (n + 1)).toList := by
      simp [Text.signedDecimal]
    rw [hlist, readChars?, Text.readNatural?_decimal]
    rfl

/-- Numerals are read back: the canonical numeral of an integer in range denotes it. -/
theorem read?_signedDecimal {n : Int} (h : InRange n) : read? (Text.signedDecimal n) = some n := by
  have hblank : ∀ c ∈ (Text.signedDecimal n).toList, Text.isBlank c = false := by
    intro c hc
    cases n with
    | ofNat n => exact Text.isBlank_of_isDigit (Text.isDigit_of_mem_decimal hc)
    | negSucc n =>
      simp only [Text.signedDecimal, String.toList_append, List.mem_append] at hc
      rcases hc with hc | hc
      · obtain rfl : c = '-' := by simpa using hc
        decide
      · exact Text.isBlank_of_isDigit (Text.isDigit_of_mem_decimal hc)
  rw [read?, Text.trim_eq_self hblank, readChars?_signedDecimal]
  exact checked?_eq_some_iff.mpr ⟨rfl, h⟩

end Lifter.Integer
