/-!
# Numerals

How numbers are written and read. Digits are ASCII throughout: a numeral is never written with a
leading zero, but leading zeros are read.

* `decimal`, `signedDecimal`, `hexadecimal`: the written forms.
* `readNatural?`, `readHexadecimal?`: a non-empty run of digits and nothing else.
* `spanDigits`: the longest run of decimal digits a text starts with.
-/

namespace Lifter.Text

/-- The decimal numeral of a natural number. -/
def decimal (n : Nat) : String := String.ofList (Nat.toDigits 10 n)

/-- The decimal numeral of an integer, with a minus sign when it is negative. -/
def signedDecimal : Int → String
  | .ofNat n => decimal n
  | .negSucc n => "-" ++ decimal (n + 1)

/-- The digits of a number in base sixteen, in lower case. -/
def hexDigits (n : Nat) : List Char := Nat.toDigits 16 n

/-- Two hexadecimal digits for a number below 256. -/
def twoHexDigits (n : Nat) : List Char := [Nat.digitChar (n / 16), Nat.digitChar (n % 16)]

/-- The hexadecimal numeral of a natural number, marked by `0x`. -/
def hexadecimal (n : Nat) : String := "0x" ++ String.ofList (hexDigits n)

/-- The value of a hexadecimal digit of either case. -/
def hexValue? (c : Char) : Option Nat :=
  if c.isDigit then some (c.toNat - '0'.toNat)
  else if 'a' ≤ c ∧ c ≤ 'f' then some (c.toNat - 'a'.toNat + 10)
  else if 'A' ≤ c ∧ c ≤ 'F' then some (c.toNat - 'A'.toNat + 10)
  else none

/-- Read a run of digits in base sixteen. -/
def readHexadecimal? (cs : List Char) : Option Nat :=
  if cs.isEmpty then none
  else cs.foldlM (fun n c => (hexValue? c).map (16 * n + ·)) 0

/-- Read a run of decimal digits. -/
def readNatural? (cs : List Char) : Option Nat :=
  if !cs.isEmpty && cs.all Char.isDigit then some (Nat.ofDigitChars 10 cs 0) else none

/-- The longest run of decimal digits at the front, and what follows it. -/
def spanDigits (cs : List Char) : List Char × List Char :=
  (cs.takeWhile Char.isDigit, cs.dropWhile Char.isDigit)

theorem isDigit_of_mem_decimal {n : Nat} {c : Char} (h : c ∈ (decimal n).toList) :
    c.isDigit = true := by
  rw [decimal, String.toList_ofList] at h
  exact Nat.isDigit_of_mem_toDigits (by decide) (by decide) h

/-- Numerals are read back: the canonical numeral of `n` denotes `n`. -/
theorem readNatural?_decimal (n : Nat) : readNatural? (decimal n).toList = some n := by
  have hne : (Nat.toDigits 10 n).isEmpty = false := by
    cases h : Nat.toDigits 10 n with
    | nil => exact absurd h (Nat.toDigits_ne_nil)
    | cons _ _ => rfl
  have hall : (Nat.toDigits 10 n).all Char.isDigit = true :=
    List.all_eq_true.mpr fun c hc => Nat.isDigit_of_mem_toDigits (by decide) (by decide) hc
  simp [readNatural?, decimal, hne, hall,
    Nat.ofDigitChars_toDigits (show 1 < 10 by decide) (Nat.le_refl 10)]

end Lifter.Text
