import Lifter.Files.Basic

/-!
# File trees

A file system held in memory. Paths are taken apart at slashes; `.` stays, `..` goes up, and a slash
at the front starts at the root. Every part of a path but the last has to be a directory. Names and
paths have a greatest length.

The working directory stands right below the root. Its name is the empty one, which no path can
spell, so what a path finds does not depend on how the working directory is called.

* `FileTree`: a file or a directory.
* `FileTree.find`: what stands at a path.
* `FileTree.read`, `FileTree.write`, `FileTree.makeOne`: the operations on a tree.
* `FileTree.files`: all files with their paths.
-/

namespace Lifter

/-- A file or a directory. -/
inductive FileTree where
  | file (contents : ByteArray)
  | directory (entries : List (String × FileTree))

namespace FileTree

/-- A directory without entries. -/
def empty : FileTree := directory []

/-- The place of the working directory. -/
def home : List String := [""]

/-- The entry of a given name in a directory. -/
def entry? (name : String) : FileTree → Option FileTree
  | directory entries => List.lookup name entries
  | file _ => none

/-- The entries with one of them replaced, or added at the end. -/
def putEntry (name : String) (tree : FileTree) : List (String × FileTree) → List (String × FileTree)
  | [] => [(name, tree)]
  | (n, t) :: rest => if n = name then (name, tree) :: rest else (n, t) :: putEntry name tree rest

/-- What stands at a list of names. -/
def get? : List String → FileTree → Option FileTree
  | [], tree => some tree
  | name :: rest, tree => (tree.entry? name).bind (get? rest)

/-- Put something at a list of names. Directories on the way are made; a file there stays. -/
def put : FileTree → (names : List String) → (new : FileTree) → FileTree
  | _, [], new => new
  | directory entries, name :: rest, new =>
    directory (putEntry name (put ((List.lookup name entries).getD empty) rest new) entries)
  | file contents, _ :: _, _ => file contents

/-! ## Paths -/

/-- The greatest length of a name, in bytes. -/
def nameLimit : Nat := 255

/-- The greatest length of a path, in bytes. -/
def pathLimit : Nat := 4095

/-- The place where a path starts. -/
def start (path : String) : List String := if isAbsolute path then [] else home

/-- Whether a path ends in a slash, so that it can only name a directory. -/
def namesDirectory (path : String) : Bool := path.toList.getLast? == some '/'

/-- The place that one part of a path leads to, whether there is something or not. -/
def enter (place : List String) (part : String) : List String :=
  if part = "." then place else if part = ".." then place.dropLast else place ++ [part]

/-- What stands at a place, if there is something. No name that is too long is looked up. -/
def lookUp (tree : FileTree) (place : List String) : Except FileError (Option FileTree) :=
  if place.getLast?.any (nameLimit < ·.utf8ByteSize) then .error .nameTooLong
  else .ok (tree.get? place)

/-- Follow parts of a path from a place given by its names; each has to lead to a directory. Gives
the names of the place arrived at. -/
def follow (tree : FileTree) (place : List String) : List String → Except FileError (List String)
  | [] => .ok place
  | part :: rest =>
    match tree.lookUp (enter place part) with
    | .error error => .error error
    | .ok none => .error .notFound
    | .ok (some (file _)) => .error .notDirectory
    | .ok (some (directory _)) => tree.follow (enter place part) rest

/-- The place that a path names. All its parts but the last have to lead to directories. -/
def locate (tree : FileTree) (path : String) : Except FileError (List String) :=
  let parts := pathParts path
  if pathLimit < path.utf8ByteSize then .error .nameTooLong
  else
    match parts.getLast? with
    | none => .ok (start path)
    | some last => (tree.follow (start path) parts.dropLast).map (enter · last)

/-- What stands at a path, if there is something. -/
def find (tree : FileTree) (path : String) : Except FileError (Option FileTree) :=
  (tree.locate path).bind tree.lookUp

/-! ## Operations -/

/-- The contents of a file. -/
def read (tree : FileTree) (path : String) : Except FileError ByteArray :=
  match tree.find path with
  | .error error => .error error
  | .ok none => .error .notFound
  | .ok (some (directory _)) => .error .isDirectory
  | .ok (some (file contents)) =>
    if namesDirectory path then .error .notDirectory else .ok contents

/-- Whether a path names a directory. -/
def isDirectory (tree : FileTree) (path : String) : Bool :=
  match tree.find path with
  | .ok (some (directory _)) => true
  | _ => false

/-- Make one directory, in a directory that exists. -/
def makeOne (tree : FileTree) (path : String) : Except FileError FileTree := do
  let place ← tree.locate path
  match ← tree.lookUp place with
  | none => return tree.put place empty
  | some _ => .error .alreadyExists

/-- Give a file new contents, making it if it is missing. A path that ends in a slash names no file,
whatever stands there. -/
def write (tree : FileTree) (path : String) (contents : ByteArray) : Except FileError FileTree := do
  let place ← tree.locate path
  if namesDirectory path then .error .isDirectory
  else
    match ← tree.lookUp place with
    | some (directory _) => .error .isDirectory
    | _ => return tree.put place (file contents)

/-- Make a change, or leave the tree as it is. -/
def change (result : Except FileError FileTree) : StateM FileTree (Except FileError Unit) :=
  fun tree =>
    match result with
    | .ok tree => (.ok (), tree)
    | .error error => (.error error, tree)

/-- Commands can run on a file tree. -/
instance : FileAccess (StateM FileTree) where
  readFile path := fun tree => (tree.read path, tree)
  writeFile path contents := fun tree => change (tree.write path contents) tree
  makeDirectory path := fun tree => change (tree.makeOne path) tree
  isDirectory path := fun tree => (tree.isDirectory path, tree)

/-- A tree with files at given paths below the working directory. -/
def ofFiles (files : List (String × ByteArray)) : FileTree :=
  files.foldl (fun tree (path, contents) => tree.put (home ++ pathParts path) (file contents))
    (empty.put home empty)

mutual

/-- All files below a place, with their paths. -/
def filesBelow (place : String) : FileTree → List (String × ByteArray)
  | file contents => [(place, contents)]
  | directory entries => entryFiles place entries

/-- All files in the entries of a directory. -/
def entryFiles (place : String) : List (String × FileTree) → List (String × ByteArray)
  | [] => []
  | (name, tree) :: rest =>
    filesBelow (if place.isEmpty then name else place ++ "/" ++ name) tree ++ entryFiles place rest

end

/-- All files below the working directory, with their paths from there. -/
def files (tree : FileTree) : List (String × ByteArray) :=
  ((tree.get? home).getD empty).filesBelow ""

end FileTree

end Lifter
