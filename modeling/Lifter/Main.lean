import Lifter.Command.Run

/-!
# The program

The command on the files of the machine it runs on. The log goes to the standard error stream.

* `main`: carry out the command line.
-/

namespace Lifter

/-- The cause of a failed operation on the machine's files. -/
def FileError.ofSystem : IO.Error → FileError
  | .noFileOrDirectory .. => .notFound
  | .alreadyExists .. => .alreadyExists
  | .inappropriateType _ 21 _ => .isDirectory
  | .inappropriateType .. => .notDirectory
  | .invalidArgument _ 36 _ => .nameTooLong
  | error => .other (toString error)

/-- The result of an operation on the machine's files. -/
def attemptFile {α : Type} (action : IO α) : IO (Except FileError α) := do
  try
    return .ok (← action)
  catch error =>
    return .error (.ofSystem error)

/-- Whether a path names a directory of the machine: only a directory cannot be read for being
one. -/
def isFolder (path : String) : IO Bool := do
  match ← attemptFile (IO.FS.readBinFile path) with
  | .error .isDirectory => return true
  | _ => return false

/-- Commands can run on the machine's files. -/
instance : FileAccess IO where
  readFile path := attemptFile (IO.FS.readBinFile path)
  writeFile path contents := attemptFile (IO.FS.writeBinFile path contents)
  makeDirectory path := attemptFile (IO.FS.createDir path)
  isDirectory path := isFolder path

end Lifter

/-- Carry out the command line. -/
def main (texts : List String) : IO UInt32 := do
  match ← Lifter.Command.carryOut texts with
  | .error error =>
    IO.eprintln ("error: " ++ error.message)
    return 2
  | .ok exit =>
    for record in exit.log do
      IO.eprintln record.line
    IO.print exit.output
    return exit.code.toUInt32
