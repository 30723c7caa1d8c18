import Lifter.Register

/-!
# The instruction catalogue

A register machine over texts. Registers hold texts; some instructions read them as integers.
The catalogue is closed, and instructions carry all their registers and literals explicitly, also
those that the byte encoding fixes, so that running one needs no knowledge of the encoding.

* `Condition`, `Instruction`: the catalogue.
* `Instruction.mnemonic`, `Instruction.operands`: what a listing shows.
* `Instruction.transfersControl`: jumps and the return.
* `Placed`: an instruction together with the offset of its first byte.
-/

namespace Lifter

/-- The comparison that a conditional jump makes. -/
inductive Condition where
  | equal
  | notEqual
  | less
  deriving DecidableEq

/-- The comparison operator that stands for a condition. -/
def Condition.operator : Condition → String
  | .equal => "=="
  | .notEqual => "!="
  | .less => "<"

/-- The instructions. -/
inductive Instruction where
  /-- Jump by the integer in `offset`. -/
  | jump (offset : Register)
  /-- Jump by the integer in `offset` if `left` and `right` compare as `condition` says. -/
  | branch (condition : Condition) (offset left right : Register)
  /-- Empty `target`. -/
  | clear (target : Register)
  /-- Write the code of the last character of `source`. -/
  | lastCode (target source : Register)
  /-- Write the character whose code is in `source`. -/
  | character (target source : Register)
  /-- Write `left` followed by `right`. -/
  | concat (target left right : Register)
  /-- Write a literal. -/
  | set (target : Register) (literal : String)
  /-- Write the sum of `left` and `right`. -/
  | add (target left right : Register)
  /-- Put a literal at the end of `target`. -/
  | append (target : Register) (literal : String)
  /-- Drop the last character of `target`. -/
  | dropLast (target : Register)
  /-- Change the sign of `target`. -/
  | negate (target : Register)
  /-- Print `source`. -/
  | print (source : Register)
  /-- Read the input into `target`. -/
  | read (target : Register)
  /-- End the program. -/
  | ret
  deriving DecidableEq

/-- An operand as a listing shows it. -/
inductive Operand where
  | register (r : Register)
  | literal (text : String)
  deriving DecidableEq

/-- The written form of an operand: a register's name, or the literal as it stands. -/
def Operand.text : Operand → String
  | .register r => r.name
  | .literal text => text

namespace Instruction

/-- The name of an instruction in listings and messages. -/
def mnemonic : Instruction → String
  | jump _ => "rel_jmp"
  | branch .equal .. => "if_eq_rel_jmp"
  | branch .notEqual .. => "if_neq_rel_jmp"
  | branch .less .. => "if_lt_rel_jmp"
  | clear _ => "clear"
  | lastCode .. => "write_last_char_code"
  | character .. => "write_char"
  | concat .. => "concat_strings"
  | set .. => "set"
  | add .. => "add"
  | append .. => "append"
  | dropLast _ => "pop_last_char"
  | negate _ => "invert_sign"
  | print _ => "print"
  | read _ => "read_str"
  | ret => "ret"

/-- The operands in listing order: the register written comes first, and so does a jump's offset,
except that a jump on `<` lists it last. -/
def operands : Instruction → List Operand
  | jump offset => [.register offset]
  | branch .less offset left right => [.register left, .register right, .register offset]
  | branch _ offset left right => [.register offset, .register left, .register right]
  | clear target | dropLast target | negate target => [.register target]
  | lastCode target source | character target source => [.register target, .register source]
  | concat target left right | add target left right =>
    [.register target, .register left, .register right]
  | set target literal | append target literal => [.register target, .literal literal]
  | print source => [.register source]
  | read target => [.register target]
  | ret => []

/-- Whether the instruction may continue elsewhere than at the next one. -/
def transfersControl : Instruction → Bool
  | jump _ | branch .. | ret => true
  | _ => false

end Instruction

/-- An instruction at the offset of its first byte. -/
structure Placed where
  /-- The offset of the first byte. -/
  address : Nat
  /-- What stands there. -/
  instruction : Instruction
  deriving DecidableEq

end Lifter
