/-!
# Files

A tree of files, the place that a path in it leads to, and why a file cannot be read.
-/

namespace Patchbay

inductive FileError
  | nulInPath
  | notFound
  | notDirectory
  | isDirectory
  | nameTooLong
  | notText
  | other (reason : String)
deriving DecidableEq, Repr

def FileError.message : FileError → String
  | nulInPath => "file name contained an unexpected NUL byte"
  | notFound => "No such file or directory (os error 2)"
  | notDirectory => "Not a directory (os error 20)"
  | isDirectory => "Is a directory (os error 21)"
  | nameTooLong => "File name too long (os error 36)"
  | notText => "stream did not contain valid UTF-8"
  | other reason => reason

/-- Names, each in the directory named after it; the root has none. -/
abbrev Place := List String

inductive FileTree.Entry
  | directory
  | file (text : String)
deriving DecidableEq, Repr

structure FileTree where
  /-- Of two entries for a place, the first counts. -/
  entries : List (Place × FileTree.Entry) := []
  /-- Where paths without a leading slash start. -/
  start : Place := []

namespace FileTree

/-- What stands at a place.  The root is always there. -/
def find? (t : FileTree) (p : Place) : Option Entry :=
  if p = [] then some .directory else t.entries.lookup p

/-- Adds a directory and all directories around it. -/
def addDirectory (t : FileTree) : Place → FileTree
  | [] => t
  | name :: around =>
    let t := t.addDirectory around
    { t with entries := (name :: around, .directory) :: t.entries }

/-- Adds a file and all directories around it. -/
def addFile (t : FileTree) (p : Place) (text : String) : FileTree :=
  let t := t.addDirectory p.tail
  { t with entries := (p, .file text) :: t.entries }

theorem find?_addDirectory (t : FileTree) (p : Place) :
    (t.addDirectory p).find? p = some .directory := by
  cases p <;> simp [find?, addDirectory]

theorem find?_addFile (t : FileTree) (p : Place) (text : String) (h : p ≠ []) :
    (t.addFile p text).find? p = some (.file text) := by
  simp [find?, addFile, h]

/-! ## Paths -/

/-- The most bytes that a path may have. -/
def longestPath : Nat := 4095

/-- The most bytes that one name in a path may have. -/
def longestName : Nat := 255

/-- Follows one name of a path.  Only a directory can be gone on from, also to itself. -/
def follow (t : FileTree) (here : Place) (name : String) : Except FileError Place :=
  match t.find? here with
  | none => .error .notFound
  | some (.file _) => .error .notDirectory
  | some .directory =>
    if name = "" ∨ name = "." then .ok here
    else if name = ".." then .ok here.tail
    else if longestName < name.utf8ByteSize then .error .nameTooLong
    else if (t.find? (name :: here)).isSome then .ok (name :: here)
    else .error .notFound

/-- The place that a path leads to. -/
def resolve (t : FileTree) (path : String) : Except FileError Place :=
  if path.toList.contains '\x00' then .error .nulInPath
  else if path = "" then .error .notFound
  else if longestPath < path.utf8ByteSize then .error .nameTooLong
  else
    let start := if path.toList.head? = some '/' then [] else t.start
    (path.splitOn "/").foldlM t.follow start

/-- The text of the file at a path. -/
def read (t : FileTree) (path : String) : Except FileError String := do
  match t.find? (← t.resolve path) with
  | some (.file text) => return text
  | some .directory => throw .isDirectory
  | none => throw .notFound

/-- The directories of a system on which nothing has been put yet. -/
def bareDirectories : List Place :=
  [["bin"], ["boot"], ["dev"], ["etc"], ["home"], ["lib"], ["media"], ["mnt"], ["opt"], ["proc"],
    ["root"], ["run"], ["sbin"], ["srv"], ["sys"], ["tmp"], ["bin", "usr"], ["lib", "usr"],
    ["local", "usr"], ["share", "usr"], ["lib", "var"], ["log", "var"], ["tmp", "var"]]

/-- A system on which nothing has been put yet, seen from a home directory. -/
def bare : FileTree :=
  let home := ["rig", "home"]
  let t := bareDirectories.foldl addDirectory { start := home }
  (t.addDirectory home).addFile ["null", "dev"] ""

end FileTree

end Patchbay
