/-! Directories: which file a path leads to. A path is followed from one component to the next, at
first through a directory whose files are known, and from there on also through the directories
around it, of which nothing is known but that they are directories, and through those that every
system has. -/
namespace Workplan.CommandLine
set_option autoImplicit false

/-! ## Errors -/

/-- Why a file cannot be read. -/
inductive FileError where
  | notFound
  | permissionDenied
  | notADirectory
  | isADirectory
  | nameTooLong
  | notText
deriving DecidableEq, Repr

namespace FileError

def code? : FileError → Option Nat
  | .notFound => some 2
  | .permissionDenied => some 13
  | .notADirectory => some 20
  | .isADirectory => some 21
  | .nameTooLong => some 36
  | .notText => none

def ofCode? (code : Nat) : Option FileError :=
  [notFound, permissionDenied, notADirectory, isADirectory, nameTooLong].find? fun e =>
    e.code? = some code

def description : FileError → String
  | .notFound => "No such file or directory"
  | .permissionDenied => "Permission denied"
  | .notADirectory => "Not a directory"
  | .isADirectory => "Is a directory"
  | .nameTooLong => "File name too long"
  | .notText => "stream did not contain valid UTF-8"

def message (e : FileError) : String :=
  match e.code? with
  | some code => s!"{e.description} (os error {code})"
  | none => e.description

end FileError

/-! ## Paths -/

/-- The longest name of a file or directory, in octets. -/
def longestName : Nat := 255

def longestPath : Nat := 4095

/-- Where a path has led so far. -/
inductive Spot where
  | file (text : String)
  /-- The known directory or one in it. -/
  | inside (path : List String)
  /-- A directory around the known one. -/
  | around
  /-- A directory reached from the root. -/
  | system (path : List String)
deriving DecidableEq, Repr

def systemDirectories : List (List String) :=
  ["bin", "dev", "etc", "home", "lib", "mnt", "opt", "proc", "root", "run", "sbin", "srv", "sys",
    "tmp", "usr", "var"].map fun name => [name]

/-- The files that every system has, all of them empty. -/
def emptyFiles : List (List String) := [["dev", "null"], ["dev", "stdin"]]

/-- A directory with its files by their paths. -/
structure Directory where
  files : List (List String × String)
deriving DecidableEq, Repr

namespace Directory

/-- The components of a path; two slashes have an empty one between them. -/
def components (path : String) : List String := path.splitOn "/"

def ofFiles (files : List (String × String)) : Directory :=
  ⟨files.map fun f => (components f.1, f.2)⟩

def find (d : Directory) (name : String) : Spot → Except FileError Spot
  | .inside path =>
    let path := path ++ [name]
    match d.files.lookup path with
    | some text => .ok (.file text)
    | none =>
      if d.files.any fun f => path.isPrefixOf f.1 then .ok (.inside path) else .error .notFound
  | .system path =>
    let path := path ++ [name]
    if emptyFiles.contains path then .ok (.file "")
    else if systemDirectories.contains path then .ok (.system path)
    else .error .notFound
  | .around => .error .notFound
  | .file _ => .error .notADirectory

def parent : Spot → Spot
  | .inside (c :: path) => .inside (c :: path).dropLast
  | .inside [] => .around
  | .around => .around
  | .system path => .system path.dropLast
  | .file text => .file text

def enter (d : Directory) (spot : Spot) (name : String) : Except FileError Spot :=
  match spot with
  | .file _ => .error .notADirectory
  | _ =>
    if name = "" ∨ name = "." then .ok spot
    else if name = ".." then .ok (parent spot)
    else if longestName < name.utf8ByteSize then .error .nameTooLong
    else d.find name spot

/-- The content of the file that a path leads to. -/
def read (d : Directory) (path : String) : Except FileError String :=
  if path.isEmpty then .error .notFound
  else if longestPath < path.utf8ByteSize then .error .nameTooLong
  else do
    let start : Spot := if path.startsWith "/" then .system [] else .inside []
    match ← (components path).foldlM d.enter start with
    | .file text => .ok text
    | _ => .error .isADirectory

end Directory

end Workplan.CommandLine
