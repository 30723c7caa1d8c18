import Lifter.Command.Arguments
import Lifter.Config.File
import Lifter.Decompile
import Lifter.Secret

/-!
# The command

Reads the configuration and the bytecode, decompiles it, and writes the artifacts. Nothing is
written before everything has been read and decompiled.

* `Command.prepare`: the part that only reads.
* `Command.publish`: the part that writes.
* `Command.run`: both, with the exit code, the output and the log as an `Exit`.
* `Command.helpText`, `Command.versionText`: what is printed on request.
* `Command.carryOut`: a whole command line.
-/

namespace Lifter.Command

/-- Why the command fails. -/
inductive Failure where
  | config (cause : ConfigError)
  | decompile (cause : DecompileError)
  | file (action path : String) (cause : FileError)

/-- The wording of a failure. -/
def Failure.message : Failure → String
  | .config cause => cause.message
  | .decompile cause => cause.message
  | .file action path cause => "failed to " ++ action ++ " " ++ path ++ ": " ++ cause.message

/-- What the command line says about the configuration. -/
def layer (args : Arguments) : Layer where
  inputLength := args.inputLength
  inputName := args.inputName
  stepBudget := args.stepBudget

/-- A way to read the contents of a configuration file; the path is for messages. -/
abbrev LayerReader := String → ByteArray → Except ConfigError Layer

section

variable {m : Type → Type} [Monad m] [FileAccess m]

/-- The layer of the configuration file, which is empty if there is none. -/
def readLayer (ofFile : LayerReader) (args : Arguments) : m (Except ConfigError Layer) := do
  match args.config with
  | none => return .ok {}
  | some path =>
    match ← FileAccess.readFile path with
    | .error cause => return .error (.unreadable path cause)
    | .ok contents => return ofFile path contents

/-- The configuration: the file's with that of the command line over it. -/
def readConfig (ofFile : LayerReader) (args : Arguments) : m (Except ConfigError Config) := do
  match ← readLayer ofFile args with
  | .error cause => return .error cause
  | .ok fromFile => return (fromFile.merge (layer args)).build

/-- Read and decompile. Gives the log so far and the results. -/
def prepare (ofFile : LayerReader) (args : Arguments) :
    m (List Record × Except Failure Decompilation) := do
  match ← readConfig ofFile args with
  | .error cause => return ([], .error (.config cause))
  | .ok config =>
    match ← FileAccess.readFile args.bytecode with
    | .error cause => return ([], .error (.file "read" args.bytecode cause))
    | .ok contents =>
      let (log, result) := decompileLogged contents.toList config
      return (log, result.mapError .decompile)

/-- Write a text to a file. -/
def writeText (path text : String) : m (Except Failure Unit) := do
  return (← FileAccess.writeFile path text.toUTF8).mapError (.file "write" path)

/-- Write the artifacts into their directory. -/
def writeArtifacts (args : Arguments) (results : Decompilation) : m (Except Failure Unit) := do
  match ← makeDirectories args.outDir with
  | .error cause => return .error (.file "create" args.outDir cause)
  | .ok () =>
    match results.disassembly with
    | none => writeText (joinPath args.outDir "pseudocode.c") results.pseudocode
    | some disassembly =>
      match ← writeText (joinPath args.outDir "disassembly.txt") disassembly with
      | .error failure => return .error failure
      | .ok () => writeText (joinPath args.outDir "pseudocode.c") results.pseudocode

/-- Write everything that is asked for. Gives the records to log and the output. -/
def publish (args : Arguments) (results : Decompilation) :
    m (List Record × Except Failure String) := do
  match ← writeArtifacts args results with
  | .error failure => return ([], .error failure)
  | .ok () =>
    let log : List Record := [⟨.info, "wrote artifacts", [("out_dir", args.outDir)]⟩]
    let output := if args.recoverSecret then recoverSecret results.pseudocode ++ "\n" else ""
    match args.report with
    | none => return (log, .ok output)
    | some path =>
      match ← writeText path results.report.text with
      | .error failure => return (log, .error failure)
      | .ok () => return (log, .ok output)

/-- How a run of the command ends. -/
structure Exit where
  /-- The exit code, zero for success. -/
  code : Nat
  /-- What is printed. -/
  output : String
  log : List Record

/-- The records that are shown: details only on request. -/
def shown (args : Arguments) (log : List Record) : List Record :=
  log.filter fun record => args.verbose || record.level != .debug

/-- The end of a run that fails, with the failure as the last record. -/
def failed (args : Arguments) (log : List Record) (failure : Failure) : Exit :=
  ⟨1, "", shown args log ++ [⟨.error, failure.message, []⟩]⟩

/-- Carry out a command. -/
def run (ofFile : LayerReader) (args : Arguments) : m Exit := do
  match ← prepare ofFile args with
  | (log, .error failure) => return failed args log failure
  | (log, .ok results) =>
    match ← publish args results with
    | (more, .error failure) => return failed args (log ++ more) failure
    | (more, .ok output) => return ⟨0, output, shown args (log ++ more)⟩

/-- The options and what they do. -/
def optionHelp : List (String × String) := [
  ("    --input-length <INPUT_LENGTH>", "Length of the buffer read by `read_str`"),
  ("    --input-name <INPUT_NAME>", "Name of the input buffer in the pseudocode"),
  ("    --config <CONFIG>", "TOML config file; command-line flags take precedence over it"),
  ("    --out-dir <OUT_DIR>",
    "Directory receiving disassembly.txt and pseudocode.c [default: output]"),
  ("    --step-budget <STEP_BUDGET>", "Stop exploring after this many instruction steps"),
  ("    --report <REPORT>", "Write a JSON exploration report to this file"),
  ("    --recover-secret", "Print the secret spelled out by the `+ <code>` literals"),
  ("-v, --verbose", "Enable debug logging"),
  ("-h, --help", "Print help"),
  ("-V, --version", "Print version")]

/-- The help, as it is printed. -/
def helpText : String :=
  "Decompiler that lifts register-VM bytecode into structured C-like pseudocode\n\n" ++
  "Usage: regvm-decompile [OPTIONS] <BYTECODE>\n\n" ++
  "Arguments:\n  <BYTECODE>  Bytecode file to decompile\n\n" ++
  "Options:\n" ++
  String.join (optionHelp.map fun (option, purpose) =>
    "  " ++ option ++ "\n          " ++ purpose ++ "\n")

/-- The version, as it is printed. -/
def versionText : String := "regvm-decompile 0.1.0\n"

/-- Carry out a command line, unless it makes no sense. -/
def carryOut (texts : List String) : m (Except UsageError Exit) := do
  match Arguments.parse texts with
  | .ok args => return .ok (← run Layer.ofFile args)
  | .error .help => return .ok ⟨0, helpText, []⟩
  | .error .version => return .ok ⟨0, versionText, []⟩
  | .error (.misuse error) => return .error error

end

end Lifter.Command
