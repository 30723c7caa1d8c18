import Lifter.Program
import Lifter.RegisterFile
import Lifter.Statement
import Lifter.Value.Operations

/-!
# Execution paths

One path through a program, run on values that may depend on the input. A path knows nothing of
other paths: `Path.step` runs one instruction and tells what was emitted and how the path goes on.

* `Input`: what the program is assumed to read.
* `Path`: where a path stands and what it holds.
* `Path.step`: one instruction, with `Step` as its result and `Fault` for what has no result.
* `PathError`: why a path ends before the program does.
-/

namespace Lifter

/-- What the program reads: words of a given length, into buffers with a given name. -/
structure Input where
  length : Nat
  name : String
  deriving DecidableEq

/-- The name of the buffer for a read after `reads` earlier ones on the same path. -/
def Input.bufferName (input : Input) (reads : Nat) : String :=
  if reads = 0 then input.name else input.name ++ "_" ++ Text.decimal reads

/-- Where a path stands and what it holds. -/
structure Path where
  /-- The position of the next instruction. -/
  position : Nat
  /-- The address of the last instruction run. -/
  address : Nat
  registers : RegisterFile
  /-- How often the path has read input. -/
  reads : Nat

/-- The path that has not started yet. -/
def Path.initial : Path := ⟨0, 0, .initial, 0⟩

/-- Why a path ends before the program does. -/
inductive PathError where
  /-- The offset of a jump depends on the input. -/
  | unresolvableBranch (offset : Expression)
  | missingJumpTarget (target : Int)
  | endOfProgram
  | budgetExhausted

/-- The wording of a path's end. -/
def PathError.message : PathError → String
  | .unresolvableBranch offset => "jump offset `" ++ offset.text ++ "` is symbolic"
  | .missingJumpTarget target =>
    "jump target " ++ Text.signedDecimal target ++ " is not an instruction boundary"
  | .endOfProgram => "execution ran past the last instruction"
  | .budgetExhausted => "step budget exhausted"

/-- The statement that marks a path's end in the pseudocode. -/
def PathError.placeholder : PathError → Statement
  | .unresolvableBranch _ | .missingJumpTarget _ => .unknownPath
  | .endOfProgram => .endOfProgram
  | .budgetExhausted => .explorationTruncated

/-- Why an instruction cannot be run at all. -/
inductive Fault where
  | unsupported (address : Nat) (instruction : Instruction)
  | evaluation (address : Nat) (error : EvalError)

/-- The wording of a fault. -/
def Fault.message : Fault → String
  | .unsupported address instruction =>
    instruction.mnemonic ++ " at " ++ Text.hexadecimal address ++ " has no stepping rule"
  | .evaluation address error =>
    "evaluation failed at " ++ Text.hexadecimal address ++ ": " ++ error.message

/-- How a path goes on after an instruction. -/
inductive Outcome where
  | running
  | returned
  | stopped (error : PathError)
  /-- The path splits: it goes on at `target` if the test holds, and at its own position if not. -/
  | forked (test : Comparison) (target : Nat)

/-- What one instruction did. -/
structure Step where
  /-- The statements it emitted. -/
  emitted : List Statement
  /-- The path after it. -/
  path : Path
  outcome : Outcome

namespace Path

/-- A path that ends here, with the placeholder in the pseudocode. -/
def stop (path : Path) (error : PathError) : Step := ⟨[error.placeholder], path, .stopped error⟩

/-- A path that goes on with a register changed. -/
def write (path : Path) (target : Register) (value : Value) : Step :=
  ⟨[], { path with registers := path.registers.set target value }, .running⟩

/-- The target of a jump by `offset` from the instruction at `address`: offsets count from the byte
after the opcode, and neither that byte nor the target may leave the range of integers. -/
def jumpTarget? (address : Nat) (offset : Int) : Option Int := do
  let base ← Integer.checked? (Integer.ofAddress address + 1)
  Integer.checked? (base + offset)

/-- The result of an operation, or the fault at the instruction being run. -/
def attempt {α : Type} (path : Path) (result : Except EvalError α) : Except Fault α :=
  result.mapError (.evaluation path.address)

/-- Run a conditional jump; `path` stands at the instruction after it. -/
def branch (path : Path) (program : Program) (condition : Condition)
    (offset left right : Register) : Except Fault Step :=
  match path.registers.get offset with
  | .symbolic expression => .ok (path.stop (.unresolvableBranch expression))
  | .concrete text => do
    let offset ← path.attempt (Value.integer text)
    match jumpTarget? path.address offset with
    | none => .error (.evaluation path.address .overflow)
    | some target =>
      match program.positionOf? target with
      | none => .ok (path.stop (.missingJumpTarget target))
      | some position =>
        let test := ⟨path.registers.get left, condition, path.registers.get right⟩
        .ok ⟨[], path, .forked test position⟩

/-- Read input into a register, through a buffer that no earlier read of this path has used. -/
def readInput (path : Path) (input : Input) (target : Register) : Step :=
  let name := input.bufferName path.reads
  let buffer := Value.symbolic (.buffer name (some input.length))
  { emitted := Statement.readInput name input.length
    path := { path with
      registers := path.registers.set target buffer
      reads := path.reads + 1 }
    outcome := .running }

/-- Run an instruction; `path` stands at the one after it and has taken its address. -/
def run (program : Program) (input : Input) (path : Path) (instruction : Instruction) :
    Except Fault Step :=
  let value := path.registers.get
  match instruction with
  | .jump _ => .error (.unsupported path.address instruction)
  | .branch condition offset left right => path.branch program condition offset left right
  | .clear target => .ok (path.write target .empty)
  | .set target literal => .ok (path.write target (.concrete literal))
  | .append target literal => .ok (path.write target ((value target).append literal))
  | .concat target left right => .ok (path.write target ((value left).concat (value right)))
  | .dropLast target => .ok (path.write target (value target).dropLast)
  | .add target left right =>
    (path.attempt ((value left).add (value right))).map (path.write target)
  | .negate target => (path.attempt (value target).negate).map (path.write target)
  | .character target source => (path.attempt (value source).character).map (path.write target)
  | .lastCode target source => (path.attempt (value source).lastCode).map (path.write target)
  | .print source => .ok ⟨[.print (value source)], path, .running⟩
  | .read target => .ok (path.readInput input target)
  | .ret => .ok ⟨[.ret], path, .returned⟩

/-- Run the next instruction of a path. -/
def step (program : Program) (input : Input) (path : Path) : Except Fault Step :=
  match program.get? path.position with
  | none => .ok (path.stop .endOfProgram)
  | some ⟨address, instruction⟩ =>
    run program input { path with address, position := path.position + 1 } instruction

end Path

end Lifter
