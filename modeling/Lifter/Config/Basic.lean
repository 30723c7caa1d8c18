import Lifter.Files.Basic
import Lifter.Path

/-!
# Configuration

A configuration is put together from layers: a file, settings of a host program, the command line.
Every layer may leave anything open; a later layer wins over an earlier one.

* `Layer`, `Layer.merge`: what one source says, and one source over another.
* `Config`, `Layer.build`: a complete configuration, with defaults for what is still open.
* `ConfigError`: why there is none, with `ConfigError.message`.
-/

namespace Lifter

/-- A complete configuration. -/
structure Config where
  /-- What the program is assumed to read. -/
  input : Input
  /-- How many steps all paths together may take. -/
  stepBudget : Option Nat
  /-- Whether a disassembly listing is wanted. -/
  emitDisassembly : Bool
  deriving DecidableEq

/-- Why there is no configuration. -/
inductive ConfigError where
  | missingInputLength
  | invalidInputName (name : String)
  | unreadable (path : String) (cause : FileError)
  /-- A configuration file is no TOML, or not of the right shape. -/
  | malformed (path : String)
  deriving DecidableEq

/-- The wording of a failed configuration. -/
def ConfigError.message : ConfigError → String
  | .missingInputLength =>
    "input length is not configured (set `[read_str] length` or pass --input-length)"
  | .invalidInputName name => "`" ++ name ++ "` is not a valid C identifier for the input buffer"
  | .unreadable path cause => "failed to read config file " ++ path ++ ": " ++ cause.message
  | .malformed path => "failed to parse config file " ++ path

/-- What one source says. -/
structure Layer where
  inputLength : Option Nat := none
  inputName : Option String := none
  stepBudget : Option Nat := none
  emitDisassembly : Option Bool := none
  deriving DecidableEq

/-- The name of the input buffer unless a layer gives one. -/
def defaultInputName : String := "flag"

/-- Letters, digits and underscores, as identifiers of C have them. -/
def isIdentifierChar (c : Char) : Bool := c == '_' || c.isAlphanum

/-- Whether a name is an identifier of C. -/
def isIdentifier (name : String) : Bool :=
  match name.toList with
  | [] => false
  | c :: rest => (c == '_' || c.isAlpha) && rest.all isIdentifierChar

namespace Layer

/-- A layer with another one over it. -/
def merge (layer upper : Layer) : Layer where
  inputLength := upper.inputLength.or layer.inputLength
  inputName := upper.inputName.or layer.inputName
  stepBudget := upper.stepBudget.or layer.stepBudget
  emitDisassembly := upper.emitDisassembly.or layer.emitDisassembly

/-- The configuration that a layer describes. A length has to be given, and the buffer needs a name
that C allows. -/
def build (layer : Layer) : Except ConfigError Config :=
  match layer.inputLength with
  | none => .error .missingInputLength
  | some length =>
    let name := layer.inputName.getD defaultInputName
    if isIdentifier name then
      .ok {
        input := ⟨length, name⟩
        stepBudget := layer.stepBudget
        emitDisassembly := layer.emitDisassembly.getD true }
    else .error (.invalidInputName name)

end Layer

end Lifter
