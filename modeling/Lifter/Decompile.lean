import Lifter.Config.Basic
import Lifter.Instruction.Encoding
import Lifter.Instruction.Listing
import Lifter.Log
import Lifter.Report

/-!
# Decompiling

From bytes to pseudocode: the bytes are decoded, all paths of the program are explored, and what
they wrote becomes one function.

* `Decompilation`: the results.
* `decompile`: the results for a byte sequence, or why there are none.
* `decompileLogged`: the same, with what there is to tell on the way.
-/

namespace Lifter

/-- What decompiling gives. -/
structure Decompilation where
  instructions : List Placed
  /-- The disassembly listing, if it is wanted. -/
  disassembly : Option String
  pseudocode : String
  report : Report

/-- Why decompiling gives nothing. -/
inductive DecompileError where
  | decode (cause : DecodeError)
  | execution (cause : ExecutionError)
  /-- The exploration took more rounds than can be counted. -/
  | endless

/-- The wording of a failure to decompile. -/
def DecompileError.message : DecompileError → String
  | .decode cause => "decoding failed: " ++ cause.message
  | .execution cause => "exploration failed: " ++ cause.message
  | .endless => "exploration failed: no end in sight"

/-- The exploration that a configuration asks for. -/
def Config.explorer (config : Config) (instructions : List Placed) : Explorer :=
  .initial (.ofList instructions) config.input config.stepBudget

/-- The results of a finished exploration. -/
def Decompilation.ofExplorer (config : Config) (instructions : List Placed) (e : Explorer) :
    Decompilation where
  instructions := instructions
  disassembly := if config.emitDisassembly then some (listing instructions) else none
  pseudocode := e.pseudocode
  report := .ofExplorer e

/-- Decompile, and tell what happens on the way. -/
def decompileLogged (bytes : List UInt8) (config : Config) :
    List Record × Except DecompileError Decompilation :=
  match decode bytes with
  | .error cause => ([], .error (.decode cause))
  | .ok instructions =>
    let opening : Record := ⟨.info, "decoded bytecode",
      [("bytes", Text.decimal bytes.length), ("instructions", Text.decimal instructions.length)]⟩
    let told (e : Explorer) := opening :: e.events.toList.map Event.record
    match (config.explorer instructions).explore Explorer.roundLimit with
    | .failed e cause => (told e, .error (.execution cause))
    | .unfinished e => (told e, .error .endless)
    | .complete e => (told e ++ [e.closingRecord], .ok (.ofExplorer config instructions e))

/-- Decompile a byte sequence. -/
def decompile (bytes : List UInt8) (config : Config) : Except DecompileError Decompilation :=
  (decompileLogged bytes config).2

end Lifter
