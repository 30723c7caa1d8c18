/-!
# Bounds of fixed-width numbers

Numbers are natural numbers and integers throughout; where a width limits them, the limit is one of
these.

* `bound32`, `bound63`, `bound64`: powers of two.
-/

namespace Lifter

/-- The number of unsigned 32-bit numbers, two to the power of 32. -/
abbrev bound32 : Nat := 0x100000000

/-- The number of signed 64-bit numbers that are not negative, two to the power of 63. -/
abbrev bound63 : Nat := 0x8000000000000000

/-- The number of unsigned 64-bit numbers, two to the power of 64. -/
abbrev bound64 : Nat := 0x10000000000000000

end Lifter
