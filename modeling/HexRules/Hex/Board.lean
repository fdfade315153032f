import HexRules.Hex.Coord
import Std.Data.HashMap

/-!
# Boards

A board is a hexagon of cells around the origin, each of which holds at most one piece.  The cells
of a board never change, only what they hold; a board is listed in the order of `hexRange`.

    b.inBounds c ↔ c ∈ hexRange b.radius origin                      (inBounds_iff_mem)
    (b.put c p h).get? d = if d = c then p else b.get? d             (get?_put)
-/

namespace HexRules

open Coord

/-! ## Errors -/

/-- What can be wrong with a use of the board. -/
inductive BoardError
  | negativeRadius
  | outside (cell : Coord)
  /-- More pieces are to be dealt than cells are free. -/
  | tooManyPieces (count : Nat) (free : Int)
  | gaveUp (count : Nat) (attempts : Int)
  deriving DecidableEq, Repr

def BoardError.message : BoardError → String
  | negativeRadius => "Board radius must be non-negative"
  | outside cell => "Coordinate " ++ cell.text ++ " is outside the board"
  | tooManyPieces count free =>
    "Cannot deal " ++ toString count ++ " pieces onto " ++ toString free ++ " free cells"
  | gaveUp count attempts =>
    "Gave up dealing " ++ toString count ++ " pieces after " ++ toString attempts ++ " attempts"

/-! ## The board -/

/-- A hexagon of cells, each empty or holding one piece. -/
structure Board (α : Type) where
  radius : Nat
  cells : Std.HashMap Coord (Option α)
  mem_cells_iff : ∀ c, c ∈ cells ↔ c ∈ hexRange radius origin

namespace Board

variable {α : Type}

/-- Radius of a board for which none is named. -/
def defaultRadius : Nat := 5

/-- A map from each of the given cells to no piece. -/
def emptyCells (coords : List Coord) : Std.HashMap Coord (Option α) :=
  coords.foldl (fun cells c => cells.insert c none) ∅

theorem mem_foldl_insert_iff (coords : List Coord) (cells : Std.HashMap Coord (Option α))
    (c : Coord) :
    c ∈ coords.foldl (fun cells d => cells.insert d none) cells ↔ c ∈ coords ∨ c ∈ cells := by
  induction coords generalizing cells with
  | nil => simp
  | cons d rest ih =>
    rw [List.foldl_cons, ih, Std.HashMap.mem_insert, List.mem_cons]
    constructor
    · rintro (h | h | h)
      · exact Or.inl (Or.inr h)
      · exact Or.inl (Or.inl (eq_of_beq h).symm)
      · exact Or.inr h
    · rintro ((h | h) | h)
      · exact Or.inr (Or.inl (by simp [h]))
      · exact Or.inl h
      · exact Or.inr (Or.inr h)

theorem getElem?_foldl_insert (coords : List Coord) (cells : Std.HashMap Coord (Option α))
    (c : Coord) (h : (cells[c]?).getD none = none) :
    ((coords.foldl (fun cells d => cells.insert d none) cells)[c]?).getD none = none := by
  induction coords generalizing cells with
  | nil => exact h
  | cons d rest ih =>
    refine ih _ ?_
    rw [Std.HashMap.getElem?_insert]
    split
    · rfl
    · exact h

/-- The board with no piece on it. -/
def empty (radius : Nat) : Board α where
  radius := radius
  cells := emptyCells (hexRange radius origin)
  mem_cells_iff c := by simp [emptyCells, mem_foldl_insert_iff]

/-- The empty board of a radius that may be negative. -/
def ofRadius (radius : Int) : Except BoardError (Board α) :=
  if radius < 0 then .error .negativeRadius else .ok (empty radius.toNat)

/-- The cells in the order in which a board is listed. -/
def coords (b : Board α) : List Coord := hexRange b.radius origin

def inBounds (b : Board α) (c : Coord) : Bool := b.cells.contains c

/-- The piece at a cell; none when the cell is empty or off the board. -/
def get? (b : Board α) (c : Coord) : Option α := (b.cells[c]?).getD none

/-- Let a cell of the board hold `piece`. -/
def put (b : Board α) (c : Coord) (piece : Option α) (h : b.inBounds c = true) : Board α where
  radius := b.radius
  cells := b.cells.insert c piece
  mem_cells_iff d := by
    rw [Std.HashMap.mem_insert, b.mem_cells_iff]
    refine ⟨fun hd => ?_, Or.inr⟩
    rcases hd with hd | hd
    · rw [← eq_of_beq hd, ← b.mem_cells_iff]
      exact Std.HashMap.mem_iff_contains.2 h
    · exact hd

/-- Let a cell hold `piece`, and answer what it held before. -/
def set (b : Board α) (c : Coord) (piece : Option α) : Except BoardError (Option α × Board α) :=
  if h : b.inBounds c then .ok (b.get? c, b.put c piece h) else .error (.outside c)

/-- Does some neighbour of a cell hold a piece? -/
def hasNeighbor (b : Board α) (c : Coord) : Bool := c.neighbors.any fun d => (b.get? d).isSome

/-- Every cell with what it holds, in listing order. -/
def toList (b : Board α) : List (Coord × Option α) := b.coords.map fun c => (c, b.get? c)

/-- The cells that hold a piece, in listing order. -/
def occupied (b : Board α) : List Coord := b.coords.filter fun c => (b.get? c).isSome

/-- The pieces on the board, in listing order. -/
def pieces (b : Board α) : List α := b.coords.filterMap b.get?

def isEmpty (b : Board α) : Bool := b.coords.all fun c => (b.get? c).isNone

/-- How often each piece lies on the board, in the order in which pieces first come. -/
def counts [DecidableEq α] (b : Board α) : List (α × Nat) :=
  b.pieces.eraseDups.map fun p => (p, b.pieces.count p)

/-- Put a piece on an empty cell of the board, if `needsNeighbor` only beside another piece. -/
def tryInsert (b : Board α) (c : Coord) (piece : α) (needsNeighbor : Bool) : Option (Board α) :=
  if h : b.inBounds c then
    if (b.get? c).isSome then none
    else if needsNeighbor && !b.hasNeighbor c then none
    else some (b.put c (some piece) h)
  else none

/-! ## Lemmas -/

theorem inBounds_iff_mem (b : Board α) (c : Coord) :
    b.inBounds c = true ↔ c ∈ hexRange b.radius origin := by
  rw [inBounds, ← Std.HashMap.mem_iff_contains, b.mem_cells_iff]

theorem inBounds_origin (b : Board α) : b.inBounds origin = true :=
  (inBounds_iff_mem b origin).2 (center_mem_hexRange b.radius origin)

theorem get?_put (b : Board α) (c d : Coord) (piece : Option α) (h : b.inBounds c = true) :
    (b.put c piece h).get? d = if d = c then piece else b.get? d := by
  unfold get? put
  simp only [Std.HashMap.getElem?_insert]
  by_cases hd : d = c
  · simp [hd]
  · have hcd : ¬ c = d := fun hc => hd hc.symm
    simp [hd, hcd]

theorem get?_empty (radius : Nat) (c : Coord) : (empty radius : Board α).get? c = none :=
  getElem?_foldl_insert _ _ c (by simp)

end Board

end HexRules
