import HexRules.Error
import HexRules.Table

/-!
# Catalogs

A catalog holds what a game defines by name: its pieces, its tags (sets of pieces) and its
mappings (partial functions from pieces to pieces).  Bare names are read in the game's own
namespace.

    c.resolve text = .ok p → p ∈ c.pieces                                (mem_of_resolve)
-/

namespace HexRules

structure Catalog where
  id : String
  /-- The pieces in the order in which they were first named. -/
  pieces : List Piece
  tags : Table String (List Piece)
  mappings : Table String (Table Piece Piece)

namespace Catalog

def empty (id : String) : Catalog := ⟨id, [], Table.empty, Table.empty⟩

/-! ## Look-ups -/

/-- Read a name in the namespace of the game with the given id. -/
def identify (id text : String) : Except CompileError Identifier :=
  match Identifier.parse? text id with
  | some i => .ok i
  | none => .error (.badIdentifier text)

/-- The piece that a text names. -/
def resolve (c : Catalog) (text : String) : Except CompileError Piece := do
  let i ← identify c.id text
  if i ∈ c.pieces then .ok i else .error (.unknown .piece i.text)

def tag (c : Catalog) (name : String) : Except CompileError (List Piece) :=
  match c.tags.get? name with
  | some members => .ok members
  | none => .error (.unknown .tag name)

def mapping (c : Catalog) (name : String) : Except CompileError (Table Piece Piece) :=
  match c.mappings.get? name with
  | some table => .ok table
  | none => .error (.unknown .mapping name)

/-! ## Building -/

/-- Add a piece unless it is there. -/
def addPiece (c : Catalog) (name : String) : Except CompileError Catalog := do
  let i ← identify c.id name
  .ok (if i ∈ c.pieces then c else { c with pieces := c.pieces ++ [i] })

/-- Define a tag as the set of the named pieces. -/
def addTag (c : Catalog) (entry : String × List String) : Except CompileError Catalog := do
  let members ← entry.2.mapM c.resolve
  .ok { c with tags := c.tags.insert entry.1 members.eraseDups }

/-- The piece that each name stands for, with the piece that its partner stands for. -/
def resolvePair (c : Catalog) (pair : String × String) : Except CompileError (Piece × Piece) := do
  let key ← c.resolve pair.1
  let value ← c.resolve pair.2
  .ok (key, value)

/-- Define a mapping; of two names for one piece the later entry counts. -/
def addMapping (c : Catalog) (entry : String × List (String × String)) :
    Except CompileError Catalog := do
  let pairs ← entry.2.mapM c.resolvePair
  .ok { c with mappings := c.mappings.insert entry.1 (Table.ofList pairs) }

/-- The catalog of a game from plain names: first the pieces, then tags and mappings over them. -/
def build (id : String) (names : List String) (tags : List (String × List String))
    (mappings : List (String × List (String × String))) : Except CompileError Catalog := do
  let c ← names.foldlM addPiece (empty id)
  let c ← tags.foldlM addTag c
  mappings.foldlM addMapping c

/-! ## Lemmas -/

theorem mem_of_resolve {c : Catalog} {text : String} {p : Piece} (h : c.resolve text = .ok p) :
    p ∈ c.pieces := by
  unfold resolve at h
  cases hi : identify c.id text with
  | error e => simp [hi, bind, Except.bind] at h
  | ok i =>
    simp only [hi, bind, Except.bind] at h
    split at h
    · rename_i hp
      simpa [Except.ok.inj h] using hp
    · simp at h

end Catalog

/-- A catalog and the board that expressions look at. -/
structure Game where
  catalog : Catalog
  board : Board Piece

/-- A catalog for which no board is given stands for the game on an empty board. -/
instance : Coe Catalog Game where
  coe c := ⟨c, Board.empty Board.defaultRadius⟩

namespace Game

/-- The same catalog with another board. -/
def withBoard (g : Game) (b : Board Piece) : Game := { g with board := b }

@[simp]
theorem catalog_withBoard (g : Game) (b : Board Piece) : (g.withBoard b).catalog = g.catalog := rfl

/-- Does some cell of the board hold the piece? -/
def onBoard (g : Game) (p : Piece) : Bool :=
  g.board.coords.any fun c => decide (g.board.get? c = some p)

end Game

end HexRules
