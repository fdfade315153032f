import HexRules.Definition
import HexRules.Games.Bundled
import HexRules.Json.Reader

/-!
# Repositories

A repository compiles games and keeps them by id.  A file that has not changed since it was last
loaded is not compiled again: for its path the repository remembers the time of its last change and
the id that it defined, and answers with the game that has that id now.

A load that fails leaves the repository as it was.
-/

namespace HexRules

/-! ## Files -/

structure File where
  /-- The time of the last change. -/
  modified : Int
  text : String

/-- An empty directory, in a directory of which nothing else is known. -/
def emptyDirectory : Directory File := ⟨[Directory.unnamed], Table.empty⟩

/-- Where a game is loaded from. -/
inductive Source
  | file (path : FilePath)
  /-- The library's own games, which never change. -/
  | bundled (path : FilePath)
  deriving DecidableEq, Repr

def Source.text : Source → String
  | file path | bundled path => path.text

/-! ## Repositories -/

/-- A definition and the number of the load that made it; two loads make two objects. -/
structure Entry where
  serial : Nat
  definition : Definition

structure Repository where
  games : Table String Entry
  /-- When a source was last changed, as far as it has been loaded. -/
  timestamps : Table Source Int
  /-- The id that a source defined when it was last loaded. -/
  ids : Table Source String
  nextSerial : Nat

namespace Repository

def empty : Repository := ⟨Table.empty, Table.empty, Table.empty, 0⟩

/-- Keep a compiled game under its id. -/
def store (r : Repository) (d : Definition) : Entry × Repository :=
  let entry : Entry := ⟨r.nextSerial, d⟩
  (entry, { r with games := r.games.insert d.id entry, nextSerial := r.nextSerial + 1 })

def get (r : Repository) (id : String) : Except Error Entry :=
  match r.games.get? id with
  | some entry => .ok entry
  | none => .error (.gameNotFound id)

def contains (r : Repository) (id : String) : Bool := r.games.contains id

/-- Has a source not changed since it was last loaded? -/
def isCurrent (r : Repository) (source : Source) (modified : Int) : Bool :=
  match r.timestamps.get? source with
  | some known => decide (modified ≤ known)
  | none => false

/-- The game that has the id which a source defined. -/
def cached (r : Repository) (source : Source) : Except Error Entry :=
  match r.ids.get? source with
  | some id => r.get id
  | none => .error (.gameNotFound source.text)

/-- Keep a compiled game and remember the source it came from. -/
def storeFrom (r : Repository) (source : Source) (modified : Int) (d : Definition) :
    Entry × Repository :=
  let (entry, r) := r.store d
  (entry, { r with
    timestamps := r.timestamps.insert source modified
    ids := r.ids.insert source d.id })

/-- Load a source, changed last at `modified`, unless it is current and need not be forced.
`compile` gives the game when it has to be compiled. -/
def loadFrom (r : Repository) (source : Source) (modified : Int) (force : Bool)
    (compile : Except Error Definition) : Except Error Entry × Repository :=
  if !force && r.isCurrent source modified then (r.cached source, r)
  else
    match compile with
    | .error e => (.error e, r)
    | .ok d =>
      let (entry, r) := r.storeFrom source modified d
      (.ok entry, r)

/-- The game that a JSON text defines. -/
def parse (text : String) : Except Error Definition :=
  match Json.read text with
  | .error .malformed => .error .badJson
  | .error .integerTooLong => .error .integerTooLong
  | .ok j =>
    match Definition.ofJson j with
    | .error e => .error (.compile e)
    | .ok d => .ok d

/-- Load the file that a path in a directory leads to. -/
def loadFile (r : Repository) (directory : Directory File) (path : String) (force : Bool) :
    Except Error Entry × Repository :=
  let p := FilePath.ofText path
  match directory.read p with
  | .error e => (.error (.file e path), r)
  | .ok file => r.loadFrom (.file p) file.modified force (parse file.text)

/-- Compile a game that is given as JSON. -/
def loadJson (r : Repository) (j : Json) : Except Error Entry × Repository :=
  match Definition.ofJson j with
  | .error e => (.error (.compile e), r)
  | .ok d =>
    let (entry, r) := r.store d
    (.ok entry, r)

/-- Load a game that comes with the library.  Its file never changes. -/
def loadBundled (r : Repository) (name : String) : Except Error Entry × Repository :=
  let p := FilePath.ofText (Games.fileName name)
  match Games.directory.read p with
  | .error e => (.error (.file e name), r)
  | .ok document =>
    r.loadFrom (.bundled p) 0 false
      (match Definition.compile document with
        | .error e => .error (.compile e)
        | .ok d => .ok d)

end Repository

end HexRules
