import Lifter.Text.Numeral

/-!
# Registers

The machine has eight register slots, and a register is the name of one of them.

* `Register.ofNat?`: the register with a given index, if the index names one.
* `Register.all`: the registers in slot order.
* `Register.name`: `reg0` to `reg7`.
-/

namespace Lifter

/-- The number of register slots. -/
abbrev registerCount : Nat := 8

/-- One of the register slots. -/
structure Register where
  /-- The slot. -/
  index : Fin registerCount
  deriving DecidableEq

namespace Register

/-- The register with index `n`, if there is one. -/
def ofNat? (n : Nat) : Option Register :=
  if h : n < registerCount then some ⟨n, h⟩ else none

/-- All registers in slot order. -/
def all : List Register := (List.finRange registerCount).map Register.mk

/-- The written name of a register. -/
def name (r : Register) : String := "reg" ++ Text.decimal r.index

@[simp] theorem ofNat?_index (r : Register) : ofNat? r.index = some r := by
  simp [ofNat?, r.index.isLt]

theorem ofNat?_eq_none_iff {n : Nat} : ofNat? n = none ↔ registerCount ≤ n := by
  simp [ofNat?]

theorem index_of_ofNat? {n : Nat} {r : Register} (h : ofNat? n = some r) : r.index = n := by
  unfold ofNat? at h
  split at h
  · cases h; rfl
  · cases h

end Register

end Lifter
