/-!
# Files

What the command does with files, apart from how files are kept: it reads a file, makes a directory
with its parents, and writes a file.

* `FileError`: why a file operation fails, with `FileError.message`.
* `FileAccess`: the operations.
* `pathParts`, `isAbsolute`, `parentPath`, `joinPath`: paths taken apart and put together.
* `makeDirectories`: a directory with its parents.
-/

namespace Lifter

/-- Why a file operation fails. -/
inductive FileError where
  | notFound
  | isDirectory
  | notDirectory
  | alreadyExists
  | nameTooLong
  /-- The contents of a file are no UTF-8 text. -/
  | notText
  | other (text : String)
  deriving DecidableEq

/-- The wording of a failed file operation. -/
def FileError.message : FileError → String
  | .notFound => "No such file or directory (os error 2)"
  | .isDirectory => "Is a directory (os error 21)"
  | .notDirectory => "Not a directory (os error 20)"
  | .alreadyExists => "File exists (os error 17)"
  | .nameTooLong => "File name too long (os error 36)"
  | .notText => "stream did not contain valid UTF-8"
  | .other text => text

/-- Access to files, each named by a path. -/
class FileAccess (m : Type → Type) where
  /-- The contents of a file. -/
  readFile : String → m (Except FileError ByteArray)
  /-- Give a file new contents, making it if it is missing. -/
  writeFile : String → ByteArray → m (Except FileError Unit)
  /-- Make one directory, in a directory that exists. -/
  makeDirectory : String → m (Except FileError Unit)
  /-- Whether a path names a directory. -/
  isDirectory : String → m Bool

/-! ## Paths -/

/-- The parts of a path between slashes. -/
def pathParts (path : String) : List String :=
  ((path.toList.splitOn '/').filter (!·.isEmpty)).map String.ofList

/-- Whether a path starts at the root. -/
def isAbsolute (path : String) : Bool := path.toList.head? == some '/'

/-- The path without its last part; parts that stay where they are do not count. -/
def parentPath (path : String) : String :=
  let parts := String.intercalate "/" ((pathParts path).filter (· != ".")).dropLast
  if isAbsolute path then "/" ++ parts else parts

/-- The path of a name below a directory. -/
def joinPath (directory name : String) : String :=
  if directory.isEmpty || directory.toList.getLast? == some '/' then directory ++ name
  else directory ++ "/" ++ name

/-! ## Directories with their parents -/

section

variable {m : Type → Type} [Monad m] [FileAccess m]

/-- A failure to make a directory does not count if the directory is there. -/
def unlessDirectory (path : String) (error : FileError) : m (Except FileError Unit) := do
  if ← FileAccess.isDirectory path then return .ok () else return .error error

/-- Make a directory, and first its parents as far as they are missing; `depth` bounds their
number. -/
def makeWithin : (depth : Nat) → (path : String) → m (Except FileError Unit)
  | 0, _ => return .ok ()
  | depth + 1, path => do
    match ← FileAccess.makeDirectory path with
    | .ok () => return .ok ()
    | .error .notFound =>
      match ← makeWithin depth (parentPath path) with
      | .error error => return .error error
      | .ok () =>
        match ← FileAccess.makeDirectory path with
        | .ok () => return .ok ()
        | .error error => unlessDirectory path error
    | .error error => unlessDirectory path error

/-- Make a directory and the parents that are missing; it may exist already. -/
def makeDirectories (path : String) : m (Except FileError Unit) := makeWithin (path.length + 1) path

end

end Lifter
