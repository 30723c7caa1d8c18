import Lifter.Bounds
import Lifter.Text.Numeral

/-!
# Command line arguments

One positional argument, the bytecode file; options with a value, given as `--option value` or
`--option=value`; and flags. Each may be given once. After `--` everything is positional. Arguments
are taken from left to right, and the first thing wrong with them counts.

* `Arguments`: what a complete command line asks for.
* `Arguments.parse`: the arguments, or the reason to do something else (`Halt`).
-/

namespace Lifter

/-- What a complete command line asks for. -/
structure Arguments where
  /-- The bytecode file. -/
  bytecode : String
  inputLength : Option Nat := none
  inputName : Option String := none
  /-- The configuration file. -/
  config : Option String := none
  /-- The directory for the artifacts. -/
  outDir : String := "output"
  stepBudget : Option Nat := none
  /-- The file for the report. -/
  report : Option String := none
  recoverSecret : Bool := false
  verbose : Bool := false
  deriving DecidableEq

/-- What is wrong with a command line. -/
inductive UsageError where
  | unknownArgument (text : String)
  | repeatedArgument (name : String)
  | missingValue (name : String)
  | invalidValue (name value : String)
  | missingBytecode
  deriving DecidableEq

/-- The wording of a usage error. -/
def UsageError.message : UsageError → String
  | .unknownArgument text => "unexpected argument " ++ text
  | .repeatedArgument name => "the argument " ++ name ++ " cannot be used multiple times"
  | .missingValue name => "a value is required for " ++ name
  | .invalidValue name value => "invalid value " ++ value ++ " for " ++ name
  | .missingBytecode => "the bytecode file is missing"

/-- Why a command line is not carried out. -/
inductive Halt where
  /-- Help is asked for. -/
  | help
  /-- The version is asked for. -/
  | version
  | misuse (error : UsageError)
  deriving DecidableEq

namespace Arguments

/-- The arguments given so far. -/
structure Given where
  bytecode : Option String := none
  inputLength : Option Nat := none
  inputName : Option String := none
  config : Option String := none
  outDir : Option String := none
  stepBudget : Option Nat := none
  report : Option String := none
  recoverSecret : Bool := false
  verbose : Bool := false

/-- An unsigned 64-bit number: decimal digits, after a plus sign or not. -/
def number? (text : String) : Option Nat :=
  let digits := match text.toList with
    | '+' :: rest => rest
    | cs => cs
  (Text.readNatural? digits).filter (· < bound64)

/-- A path, which has to name something. -/
def path? (text : String) : Option String := if text.isEmpty then none else some text

/-- Take a value that was not given before. -/
def once {α : Type} (name : String) (previous : Option α) (read? : String → Option α)
    (value : String) : Except Halt (Option α) :=
  match read? value with
  | none => .error (.misuse (.invalidValue name value))
  | some a => if previous.isSome then .error (.misuse (.repeatedArgument name)) else .ok (some a)

/-- Whether an option takes a value. -/
def takesValue (name : String) : Bool :=
  name ∈ ["--input-length", "--input-name", "--config", "--out-dir", "--step-budget", "--report"]

namespace Given

/-- Take the value of an option. -/
def store (given : Given) (name value : String) : Except Halt Given :=
  match name with
  | "--input-length" =>
    (once name given.inputLength number? value).map fun n => { given with inputLength := n }
  | "--input-name" =>
    (once name given.inputName some value).map fun name => { given with inputName := name }
  | "--config" => (once name given.config path? value).map fun path => { given with config := path }
  | "--out-dir" =>
    (once name given.outDir path? value).map fun path => { given with outDir := path }
  | "--step-budget" =>
    (once name given.stepBudget number? value).map fun n => { given with stepBudget := n }
  | "--report" => (once name given.report path? value).map fun path => { given with report := path }
  | _ => .error (.misuse (.unknownArgument name))

/-- Take a flag. -/
def raise (given : Given) (name : String) : Except Halt Given :=
  match name with
  | "--recover-secret" =>
    if given.recoverSecret then .error (.misuse (.repeatedArgument name))
    else .ok { given with recoverSecret := true }
  | "--verbose" | "-v" =>
    if given.verbose then .error (.misuse (.repeatedArgument name))
    else .ok { given with verbose := true }
  | "--help" | "-h" => .error .help
  | "--version" | "-V" => .error .version
  | _ => .error (.misuse (.unknownArgument name))

/-- Take flags of one letter each. -/
def raiseAll (given : Given) : List Char → Except Halt Given
  | [] => .ok given
  | letter :: rest => do
    let given ← given.raise (String.ofList ['-', letter])
    given.raiseAll rest

/-- Take the positional argument. -/
def position (given : Given) (text : String) : Except Halt Given :=
  if given.bytecode.isSome then .error (.misuse (.unknownArgument text))
  else return { given with bytecode := ← once "bytecode" given.bytecode path? text }

/-- Take positional arguments only. -/
def positions (given : Given) : List String → Except Halt Given
  | [] => .ok given
  | text :: rest => do
    let given ← given.position text
    given.positions rest

/-- The arguments, if the bytecode file was given. -/
def finish (given : Given) : Except Halt Arguments :=
  match given.bytecode with
  | none => .error (.misuse .missingBytecode)
  | some bytecode =>
    .ok {
      bytecode
      inputLength := given.inputLength
      inputName := given.inputName
      config := given.config
      outDir := given.outDir.getD "output"
      stepBudget := given.stepBudget
      report := given.report
      recoverSecret := given.recoverSecret
      verbose := given.verbose }

end Given

/-- The forms that an argument can have. -/
inductive Form where
  /-- `--`: the rest is positional. -/
  | separator
  /-- A name after two hyphens, possibly with a value after an equals sign. -/
  | long (name : String) (value : Option String)
  /-- Letters after one hyphen. -/
  | short (letters : List Char)
  | plain

/-- The form of an argument. A single hyphen is nothing special. -/
def Form.of (text : String) : Form :=
  match text.toList with
  | ['-', '-'] => .separator
  | '-' :: '-' :: rest =>
    let name := rest.takeWhile (· != '=')
    let value := match rest.drop name.length with
      | _ :: value => some (String.ofList value)
      | [] => none
    .long (String.ofList ('-' :: '-' :: name)) value
  | '-' :: c :: rest => .short (c :: rest)
  | _ => .plain

/-- Take arguments from left to right. -/
def read (given : Given) : List String → Except Halt Given
  | [] => .ok given
  | [text] =>
    match Form.of text with
    | .separator => .ok given
    | .short letters => given.raiseAll letters
    | .plain => given.position text
    | .long name (some value) => given.store name value
    | .long name none =>
      if takesValue name then .error (.misuse (.missingValue name)) else given.raise name
  | text :: next :: rest =>
    match Form.of text with
    | .separator => given.positions (next :: rest)
    | .short letters => do read (← given.raiseAll letters) (next :: rest)
    | .plain => do read (← given.position text) (next :: rest)
    | .long name (some value) => do read (← given.store name value) (next :: rest)
    | .long name none =>
      if takesValue name then
        match Form.of next with
        | .plain => do read (← given.store name next) rest
        | _ => .error (.misuse (.missingValue name))
      else do read (← given.raise name) (next :: rest)

/-- The arguments of a command line. -/
def parse (texts : List String) : Except Halt Arguments := do
  let given ← read {} texts
  given.finish

end Arguments

end Lifter
