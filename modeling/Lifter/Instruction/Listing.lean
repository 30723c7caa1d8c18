import Lifter.Instruction.Basic

/-!
# Disassembly listing

One line per instruction, and an empty line after each instruction that transfers control, so
that straight-line blocks stand apart.

* `Placed.line`: the line of one instruction.
* `listingLines`, `listing`: the lines of a program, and its text.
-/

namespace Lifter

/-- The column at which operands start, counted from the mnemonic. -/
def operandColumn : Nat := 22

/-- The line of an instruction: its address, its mnemonic padded to the operand column, and its
operands. -/
def Placed.line (p : Placed) : String :=
  let mnemonic := p.instruction.mnemonic
  Text.hexadecimal p.address ++ ":\t" ++ mnemonic ++
    String.ofList (List.replicate (operandColumn - mnemonic.length) ' ') ++
    String.intercalate ", " (p.instruction.operands.map Operand.text)

/-- The lines that an instruction contributes to a listing. -/
def Placed.block (p : Placed) : List String :=
  if p.instruction.transfersControl then [p.line, ""] else [p.line]

/-- The lines of a listing. -/
def listingLines (program : List Placed) : List String := program.flatMap Placed.block

/-- The text of a listing, each line closed by a line end. -/
def listing (program : List Placed) : String :=
  String.join ((listingLines program).map (· ++ "\n"))

end Lifter
