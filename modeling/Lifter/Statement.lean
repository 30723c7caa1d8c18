import Lifter.Instruction.Basic
import Lifter.Value.Basic

/-!
# Statements

The statements of the pseudocode and their spelling, which is that of C.

* `Statement`, `Comparison`: what a program does, and what a branch tests.
* `Spelled`: things that have a spelling in pseudocode.
* `functionText`: body lines as a complete function.
-/

namespace Lifter

/-- Things with a spelling in pseudocode. -/
class Spelled (α : Type) where
  /-- The spelling, on one line. -/
  text : α → String

instance : Spelled String := ⟨id⟩

/-- A statement of straight-line pseudocode. -/
inductive Statement where
  | print (value : Value)
  /-- Declare a buffer. -/
  | declare (name : String) (length : Nat)
  /-- Read a word of input into a buffer. -/
  | scan (name : String)
  | ret
  /-- A jump could not be followed. -/
  | unknownPath
  /-- The step budget ended the exploration here. -/
  | explorationTruncated
  /-- There is no further instruction. -/
  | endOfProgram

/-- The spelling of a statement. -/
def Statement.text : Statement → String
  | .print value => "puts(" ++ value.operand ++ ");"
  | .declare name length => "char " ++ name ++ "[" ++ Text.decimal length ++ "];"
  | .scan name => "scanf(\"%s\", " ++ name ++ ");"
  | .ret => "return 0;"
  | .unknownPath => "// unknown path"
  | .explorationTruncated => "// exploration truncated"
  | .endOfProgram => "// end of program"

instance : Spelled Statement := ⟨Statement.text⟩

/-- Declaring a buffer and reading the input into it. -/
def Statement.readInput (name : String) (length : Nat) : List Statement :=
  [.declare name length, .scan name]

/-- Two operands with an operator between them. -/
def comparisonText (left : Value) (operator : String) (right : Value) : String :=
  left.operand ++ " " ++ operator ++ " " ++ right.operand

/-- The test of a branch. -/
structure Comparison where
  left : Value
  condition : Condition
  right : Value

/-- The spelling of a test. -/
def Comparison.text (c : Comparison) : String := comparisonText c.left c.condition.operator c.right

instance : Spelled Comparison := ⟨Comparison.text⟩

/-- Body lines wrapped in the main function of a C program. -/
def functionText (lines : List String) : String :=
  "#include <stdio.h>\n\nint main(int argc, char* argv[]) \x7b\n" ++
    String.join (lines.map fun line => "\t" ++ line ++ "\n") ++ "\x7d"

end Lifter
