import Lifter.Register
import Lifter.Value.Basic

/-!
# Register files

The contents of all registers.

* `RegisterFile.initial`: every register holds the empty text.
* `RegisterFile.get`, `RegisterFile.set`: access by register.
-/

namespace Lifter

/-- A value for each register. -/
structure RegisterFile where
  /-- The values in slot order. -/
  slots : Vector Value registerCount

namespace RegisterFile

/-- All registers empty. -/
def initial : RegisterFile := ⟨Vector.replicate registerCount Value.empty⟩

/-- The value in a register. -/
def get (file : RegisterFile) (r : Register) : Value := file.slots[r.index]

/-- The file with one register changed. -/
def set (file : RegisterFile) (r : Register) (value : Value) : RegisterFile :=
  ⟨file.slots.set r.index value⟩

/-- The values in slot order. -/
def toList (file : RegisterFile) : List Value := file.slots.toList

@[simp] theorem get_initial (r : Register) : initial.get r = Value.empty := by
  simp [initial, get]

@[simp] theorem get_set_self (file : RegisterFile) (r : Register) (value : Value) :
    (file.set r value).get r = value := by
  simp [set, get]

theorem get_set_of_ne (file : RegisterFile) {r s : Register} (h : r ≠ s) (value : Value) :
    (file.set r value).get s = file.get s := by
  have hne : (r.index : Nat) ≠ s.index := fun he => h (by cases r; cases s; simp_all [Fin.ext_iff])
  simp [set, get, Vector.getElem_set_ne, hne]

end RegisterFile

end Lifter
