import Lifter.Bounds
import Lifter.Instruction.Listing

/-!
# Programs

A program is a sequence of placed instructions. Positions count instructions; addresses count
bytes. Jumps name addresses, so a program answers which position an address has.

* `Program.get?`, `Program.size`: access by position.
* `Program.positionOf?`: the last position that holds an address.
-/

namespace Lifter

/-- A sequence of placed instructions; nothing is assumed of their addresses. -/
structure Program where
  /-- The instructions by position. -/
  instructions : Array Placed
  deriving DecidableEq

namespace Program

/-- The program with the given instructions. -/
def ofList (instructions : List Placed) : Program := ⟨instructions.toArray⟩

/-- The number of instructions. -/
def size (p : Program) : Nat := p.instructions.size

/-- The instruction at a position. -/
def get? (p : Program) (position : Nat) : Option Placed := p.instructions[position]?

/-- The last index below `n` at which `test` holds. -/
def lastIndex? (test : Nat → Bool) : Nat → Option Nat
  | 0 => none
  | n + 1 => if test n then some n else lastIndex? test n

/-- Whether the instruction at a position has the given address. -/
def standsAt (p : Program) (address position : Nat) : Bool :=
  (p.get? position).any (·.address == address)

/-- The position of the instruction at a jump target, which is a signed 64-bit integer. Where
several instructions share the address, it is the last of them. -/
def positionOf? (p : Program) (target : Int) : Option Nat :=
  if 0 ≤ target ∧ target < bound63 then lastIndex? (p.standsAt target.toNat) p.size else none

end Program

end Lifter
