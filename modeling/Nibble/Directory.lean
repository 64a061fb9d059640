import Nibble.Text.Basic

set_option autoImplicit false

/-! A tree of files, and the contents of the file that a path names in it. Nothing is known of what
lies outside the tree. -/

namespace Nibble

open Text (ascii)

inductive FileFault where
  | missing
  /-- The path goes on behind a file. -/
  | notDirectory
  | nameTooLong
  /-- The path names a directory, which can be opened but not read. -/
  | isDirectory
deriving DecidableEq, Repr

def FileFault.message (path : Text) : FileFault → Text
  | missing => ascii "open " ++ path ++ ascii ": no such file or directory"
  | notDirectory => ascii "open " ++ path ++ ascii ": not a directory"
  | nameTooLong => ascii "open " ++ path ++ ascii ": file name too long"
  | isDirectory => ascii "read " ++ path ++ ascii ": is a directory"

/-- Files by the names on the way to them. -/
structure Directory where
  files : List (List Text × Text) := []

namespace Directory

/-- The names of a path between its slashes, of which some may be empty. -/
def names : Text → List Text
  | [] => [[]]
  | byte :: rest =>
      match names rest with
      | [] => [[byte]]
      | first :: others => if byte = 47 then [] :: first :: others else (byte :: first) :: others

/-- Where a path has led to. -/
inductive Spot where
  /-- A directory of the tree. -/
  | inside (way : List Text)
  /-- A directory that the tree lies in. -/
  | outside
  | file (contents : Text)
deriving DecidableEq, Repr

def nameLimit : Nat := 255

def pathLimit : Nat := 4095

def lookup (directory : Directory) (way : List Text) (name : Text) : Except FileFault Spot :=
  if name.length > nameLimit then .error .nameTooLong
  else
    match directory.files.lookup (way ++ [name]) with
    | some contents => .ok (.file contents)
    | none =>
        if directory.files.any fun file => (way ++ [name]).isPrefixOf file.1 then
          .ok (.inside (way ++ [name]))
        else .error .missing

/-- Follows one name of a path. An empty name and one dot stay where they are, and two dots lead
back. -/
def follow (directory : Directory) (spot : Spot) (name : Text) : Except FileFault Spot :=
  match spot with
  | .file _ => .error .notDirectory
  | .inside way =>
      if name = [] ∨ name = ascii "." then .ok (.inside way)
      else if name = ascii ".." then .ok (if way = [] then .outside else .inside way.dropLast)
      else directory.lookup way name
  | .outside =>
      if name = [] ∨ name = ascii "." ∨ name = ascii ".." then .ok .outside
      else if name.length > nameLimit then .error .nameTooLong
      else .error .missing

/-- Where a path leads to. One that begins with a slash starts outside the tree. -/
def locate (directory : Directory) (path : Text) : Except FileFault Spot :=
  if path.length > pathLimit then .error .nameTooLong
  else if path = [] then .error .missing
  else (names path).foldlM directory.follow (if path.head? = some 47 then .outside else .inside [])

def read (directory : Directory) (path : Text) : Except FileFault Text :=
  match directory.locate path with
  | .error fault => .error fault
  | .ok (.file contents) => .ok contents
  | .ok _ => .error .isDirectory

/-- The names on the way to a file, without those that stay where they are. -/
def way (path : Text) : List Text :=
  (names path).filter fun name => name ≠ [] ∧ name ≠ ascii "."

def ofFiles (files : List (Text × Text)) : Directory :=
  ⟨files.map fun file => (way file.1, file.2)⟩

end Directory

end Nibble
