/-!
# Cells of a hexagonal grid

Cells have axial coordinates: `q` grows to the right and `r` to the lower right.  `ring` walks
the cells at one distance around a centre, `hexRange` the cells up to a distance, ring by ring.

    c ∈ ring n a ↔ distance c a = n          c ∈ hexRange n a ↔ distance c a ≤ n
-/

namespace HexRules

structure Coord where
  q : Int
  r : Int
  deriving DecidableEq, Repr, Hashable

namespace Coord

def origin : Coord := ⟨0, 0⟩

def add (a b : Coord) : Coord := ⟨a.q + b.q, a.r + b.r⟩

/-- `n` steps along `a`. -/
def times (n : Int) (a : Coord) : Coord := ⟨n * a.q, n * a.r⟩

/-- The six steps to a neighbour; consecutive ones, cyclically, are neighbours themselves. -/
def directions : List Coord := [⟨1, 0⟩, ⟨1, -1⟩, ⟨0, -1⟩, ⟨-1, 0⟩, ⟨-1, 1⟩, ⟨0, 1⟩]

/-- The corner of the unit ring at which the side along each direction begins. -/
def corners : List Coord := [⟨-1, 1⟩, ⟨0, 1⟩, ⟨1, 0⟩, ⟨1, -1⟩, ⟨0, -1⟩, ⟨-1, 0⟩]

def neighbors (c : Coord) : List Coord := directions.map c.add

/-- Least number of steps between two cells. -/
def distance (a b : Coord) : Nat :=
  ((a.q - b.q).natAbs + (a.r - b.r).natAbs + (a.q - b.q + (a.r - b.r)).natAbs) / 2

/-- The cells of one side of the ring: from a corner along a direction, the far end left out. -/
def side (radius : Nat) (center corner along : Coord) : List Coord :=
  (List.range radius).map fun (i : Nat) =>
    (center.add (times (radius : Int) corner)).add (times (i : Int) along)

/-- The cells exactly `radius` steps from `center`, walked side by side. -/
def ring (radius : Nat) (center : Coord) : List Coord :=
  if radius = 0 then [center]
  else (corners.zip directions).flatMap fun pair => side radius center pair.1 pair.2

/-- The cells at most `radius` steps from `center`, ring by ring from the centre. -/
def hexRange (radius : Nat) (center : Coord) : List Coord :=
  (List.range (radius + 1)).flatMap fun step => ring step center

/-- `ring` for any integer; a negative radius has no cells. -/
def ringOfInt (radius : Int) (center : Coord) : List Coord :=
  if radius < 0 then [] else ring radius.toNat center

/-- `hexRange` for any integer; a negative radius has no cells. -/
def hexRangeOfInt (radius : Int) (center : Coord) : List Coord :=
  if radius < 0 then [] else hexRange radius.toNat center

/-- A cell as messages show it. -/
def text (c : Coord) : String := "(" ++ toString c.q ++ ", " ++ toString c.r ++ ")"

/-- A list of cells as messages show it. -/
def listText (cs : List Coord) : String := "[" ++ String.intercalate ", " (cs.map text) ++ "]"

/-! ## Lemmas -/

theorem center_mem_hexRange (radius : Nat) (center : Coord) : center ∈ hexRange radius center :=
  List.mem_flatMap.2 ⟨0, List.mem_range.2 (Nat.succ_pos radius), List.mem_singleton.2 rfl⟩

end Coord

end HexRules
