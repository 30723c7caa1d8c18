/-!
# Characters by code

* `charOfCode?`: the character with a given code, which has to be a Unicode scalar value.
-/

namespace Lifter.Text

/-- The character with a given code, if the code is a Unicode scalar value. -/
def charOfCode? (code : Nat) : Option Char :=
  if h : code.isValidChar then some (Char.ofNatAux code h) else none

/-- Every character has its own code. -/
@[simp] theorem charOfCode?_toNat (c : Char) : charOfCode? c.toNat = some c := by
  have h : c.toNat.isValidChar := c.valid
  rw [charOfCode?, dif_pos h]
  exact congrArg some (Char.ext rfl)

end Lifter.Text
