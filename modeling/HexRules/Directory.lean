import HexRules.Table

/-!
# Paths and directories

A directory lies in a tree of which the directories on the way down to it are known, and files.  A
path is walked name by name; it ends at a file or at a directory, or the walk fails on the way.  A
file is written where a path ends, if there is a directory to hold it, and directories are not made.
-/

namespace HexRules

/-! ## Paths -/

/-- The names on the way down from the root of a tree. -/
abbrev Location := List String

/-- A path from the root or from a directory, without the names that lead nowhere. -/
structure FilePath where
  fromRoot : Bool
  names : List String
  deriving DecidableEq, Repr

namespace FilePath

/-- The names between the slashes of a text, less empty ones and dots.  A text that begins with a
slash leads from the root. -/
def ofText (text : String) : FilePath where
  fromRoot := text.toList.head? = some '/'
  names := ((text.toList.splitOn '/').map String.ofList).filter fun name => name ≠ "" ∧ name ≠ "."

def text (p : FilePath) : String :=
  (if p.fromRoot then "/" else "") ++ String.intercalate "/" p.names

/-- The name that leads up. -/
def parent : String := ".."

end FilePath

/-! ## Directories -/

/-- Why a file is not read. -/
inductive FileError
  | notFound
  /-- A path leads on from a file. -/
  | notADirectory
  | isADirectory
  /-- A path or one of its names is too long. -/
  | tooLong
  /-- A name has a character that no name can have. -/
  | badName
  deriving DecidableEq, Repr

/-- Where a walk has come to. -/
inductive Place (α : Type)
  | directory (location : Location)
  | file (content : α)

/-- A directory and the files of the tree that it lies in. -/
structure Directory (α : Type) where
  location : Location
  files : Table Location α

namespace Directory

variable {α : Type}

/-- The name of a directory whose name is not known.  No name in a path is empty, so no path leads
down into it. -/
def unnamed : String := ""

/-- Longest name that there can be, in bytes. -/
def maxNameSize : Nat := 255

/-- Paths from this size on are too long, in bytes. -/
def pathSizeLimit : Nat := 4096

/-- Is there a directory at a location? -/
def isDirectory (d : Directory α) (l : Location) : Bool := l.isPrefixOf d.location

/-- One name further. -/
def step (d : Directory α) : Place α → String → Except FileError (Place α)
  | .file _, _ => .error .notADirectory
  | .directory l, name =>
    if name = FilePath.parent then .ok (.directory l.dropLast)
    else if maxNameSize < name.utf8ByteSize then .error .tooLong
    else match d.files.get? (l ++ [name]) with
      | some content => .ok (.file content)
      | none =>
        if d.isDirectory (l ++ [name]) then .ok (.directory (l ++ [name])) else .error .notFound

/-- Where the names of a path lead from a place. -/
def walk (d : Directory α) : Place α → List String → Except FileError (Place α)
  | place, [] => .ok place
  | place, name :: rest => do
    let next ← d.step place name
    d.walk next rest

/-- The names of a path that is fit to be walked. -/
def fitNames (p : FilePath) : Except FileError (List String) :=
  if p.names.any fun name => '\x00' ∈ name.toList then .error .badName
  else if pathSizeLimit ≤ p.text.utf8ByteSize then .error .tooLong
  else .ok p.names

/-- Where a path sets out. -/
def origin (d : Directory α) (p : FilePath) : Place α :=
  .directory (if p.fromRoot then [] else d.location)

/-- Where a path leads. -/
def find (d : Directory α) (p : FilePath) : Except FileError (Place α) := do
  let names ← fitNames p
  d.walk (d.origin p) names

/-- The content of the file at a path. -/
def read (d : Directory α) (p : FilePath) : Except FileError α :=
  match d.find p with
  | .ok (.file content) => .ok content
  | .ok (.directory _) => .error .isADirectory
  | .error e => .error e

/-! ## Changes -/

/-- The place for a file of a given name: its location, and what is there. -/
def slotAt (d : Directory α) (name : String) : Place α → Except FileError (Location × Option α)
  | .file _ => .error .notADirectory
  | .directory l =>
    match d.step (.directory l) name with
    | .ok (.file content) => .ok (l ++ [name], some content)
    | .ok (.directory _) => .error .isADirectory
    | .error .notFound => .ok (l ++ [name], none)
    | .error e => .error e

/-- The place for a file at the end of a path, in a directory that is there. -/
def slot (d : Directory α) (p : FilePath) : Except FileError (Location × Option α) := do
  let names ← fitNames p
  match names.getLast? with
  | none => .error .isADirectory
  | some name => do
    let place ← d.walk (d.origin p) names.dropLast
    d.slotAt name place

/-- Put a file at a path, in place of what is there. -/
def write (d : Directory α) (p : FilePath) (content : α) : Except FileError (Directory α) := do
  let (l, _) ← d.slot p
  .ok { d with files := d.files.insert l content }

/-- Drop the file at a path. -/
def delete (d : Directory α) (p : FilePath) : Except FileError (Directory α) := do
  match ← d.slot p with
  | (l, some _) => .ok { d with files := d.files.erase l }
  | (_, none) => .error .notFound

end Directory

end HexRules
