import Lifter.Instruction.Basic

/-!
# Byte encoding

An instruction is encoded as one opcode byte and then its register operands, one byte each. Jumps,
`print` and `read_str` work on fixed registers; `clear` and `set` name their register in the
opcode; `set` and `append` have a fixed literal.

* `Instruction.encode?`: the bytes of an instruction, if it is one that has an encoding.
* `Shape`: what an opcode announces, an instruction that may still lack operands.
* `decode`: a byte sequence as placed instructions, or the first thing wrong with it.
* `DecodeError.message`: the wording of a failure.
-/

namespace Lifter

/-- The register that jumps read their offset from. -/
def offsetRegister : Register := ⟨5⟩

/-- The left operand of a conditional jump's comparison. -/
def leftRegister : Register := ⟨6⟩

/-- The right operand of a conditional jump's comparison. -/
def rightRegister : Register := ⟨7⟩

/-- The register that `print` prints. -/
def printRegister : Register := ⟨4⟩

/-- The register that `read_str` fills. -/
def readRegister : Register := ⟨0⟩

/-- The literal that `set` writes. -/
def setLiteral : String := "0"

/-- The literal that `append` adds. -/
def appendLiteral : String := "1"

/-- The byte that names a register. -/
def Register.byte (r : Register) : UInt8 := UInt8.ofNat r.index

/-- A conditional jump on the fixed registers. -/
def Instruction.fixedBranch (condition : Condition) : Instruction :=
  .branch condition offsetRegister leftRegister rightRegister

/-! ## Encoding -/

/-- The bytes of an instruction. An instruction with other fixed registers or literals than the
encoding has is not encodable. -/
def Instruction.encode? : Instruction → Option (List UInt8)
  | .jump offset => if offset = offsetRegister then some [40] else none
  | .branch condition offset left right =>
    if offset = offsetRegister ∧ left = leftRegister ∧ right = rightRegister then
      match condition with
      | .equal => some [41]
      | .notEqual => some [42]
      | .less => some [43]
    else none
  | .clear target => some [44 + target.byte]
  | .lastCode target source => some [61, source.byte, target.byte]
  | .character target source => some [62, source.byte, target.byte]
  | .concat target left right => some [63, left.byte, right.byte, target.byte]
  | .set target literal => if literal = setLiteral then some [64 + target.byte] else none
  | .add target left right => some [81, left.byte, right.byte, target.byte]
  | .append target literal => if literal = appendLiteral then some [82, target.byte] else none
  | .dropLast target => some [83, target.byte]
  | .negate target => some [84, target.byte]
  | .print source => if source = printRegister then some [85] else none
  | .read target => if target = readRegister then some [86] else none
  | .ret => some [87]

/-! ## Decoding -/

/-- Why a byte sequence is no program. The address is that of the faulty instruction. -/
inductive DecodeError where
  | unknownOpcode (address : Nat) (opcode : UInt8)
  | invalidRegister (address : Nat) (index : UInt8)
  | truncated (address : Nat)
  deriving DecidableEq

/-- The wording of a decoding failure. -/
def DecodeError.message : DecodeError → String
  | .unknownOpcode address opcode =>
    "unknown opcode " ++ Text.decimal opcode.toNat ++ " at " ++ Text.hexadecimal address
  | .invalidRegister address index =>
    "unknown register with id " ++ Text.decimal index.toNat ++ " in instruction at " ++
      Text.hexadecimal address
  | .truncated address =>
    "bytecode ends inside the operands of the instruction at " ++ Text.hexadecimal address

/-- An instruction that may still lack operands, which are registers. -/
inductive Shape where
  | complete (instruction : Instruction)
  | awaiting (withOperand : Register → Shape)

/-- What an opcode announces. The operand bytes stand in the order of the arguments here. -/
def Shape.ofOpcode? (opcode : UInt8) : Option Shape :=
  match opcode.toNat with
  | 40 => some (.complete (.jump offsetRegister))
  | 41 => some (.complete (.fixedBranch .equal))
  | 42 => some (.complete (.fixedBranch .notEqual))
  | 43 => some (.complete (.fixedBranch .less))
  | 61 => some (.awaiting fun source => .awaiting fun target =>
      .complete (.lastCode target source))
  | 62 => some (.awaiting fun source => .awaiting fun target =>
      .complete (.character target source))
  | 63 => some (.awaiting fun left => .awaiting fun right => .awaiting fun target =>
      .complete (.concat target left right))
  | 81 => some (.awaiting fun left => .awaiting fun right => .awaiting fun target =>
      .complete (.add target left right))
  | 82 => some (.awaiting fun target => .complete (.append target appendLiteral))
  | 83 => some (.awaiting fun target => .complete (.dropLast target))
  | 84 => some (.awaiting fun target => .complete (.negate target))
  | 85 => some (.complete (.print printRegister))
  | 86 => some (.complete (.read readRegister))
  | 87 => some (.complete .ret)
  | n =>
    if 44 ≤ n ∧ n ≤ 51 then
      (Register.ofNat? (n - 44)).map fun target => .complete (.clear target)
    else if 64 ≤ n ∧ n ≤ 71 then
      (Register.ofNat? (n - 64)).map fun target => .complete (.set target setLiteral)
    else none

/-- Read the operands that a shape awaits; `address` is where its instruction starts. Gives the
instruction and the bytes after it. -/
def Shape.fill (address : Nat) : Shape → List UInt8 → Except DecodeError (Instruction × List UInt8)
  | complete instruction, bytes => .ok (instruction, bytes)
  | awaiting _, [] => .error (.truncated address)
  | awaiting withOperand, byte :: rest =>
    match Register.ofNat? byte.toNat with
    | none => .error (.invalidRegister address byte)
    | some r => (withOperand r).fill address rest

/-- Reading operands only moves forward. -/
theorem Shape.length_le_of_fill {address : Nat} {shape : Shape} {bytes : List UInt8}
    {instruction : Instruction} {rest : List UInt8}
    (h : shape.fill address bytes = .ok (instruction, rest)) : rest.length ≤ bytes.length := by
  induction shape generalizing bytes with
  | complete i => simp only [fill, Except.ok.injEq, Prod.mk.injEq] at h; simp [h.2]
  | awaiting f ih =>
    cases bytes with
    | nil => simp [fill] at h
    | cons byte tail =>
      simp only [fill] at h
      split at h
      · cases h
      · exact Nat.le_succ_of_le (ih _ h)

/-- Decode the bytes from `address` on. -/
def decodeFrom (address : Nat) (bytes : List UInt8) : Except DecodeError (List Placed) :=
  match bytes with
  | [] => .ok []
  | opcode :: operands =>
    match Shape.ofOpcode? opcode with
    | none => .error (.unknownOpcode address opcode)
    | some shape =>
      match _h : shape.fill address operands with
      | .error e => .error e
      | .ok (instruction, rest) =>
        match decodeFrom (address + 1 + (operands.length - rest.length)) rest with
        | .error e => .error e
        | .ok later => .ok (⟨address, instruction⟩ :: later)
termination_by bytes.length
decreasing_by
  have := Shape.length_le_of_fill _h
  simp only [List.length_cons]
  omega

/-- The instructions of a byte sequence, each at its offset. -/
def decode (bytes : List UInt8) : Except DecodeError (List Placed) := decodeFrom 0 bytes

end Lifter
