import HexRules.Hex.Board
import HexRules.Number.Binary64
import HexRules.Random.Generator

/-!
# Dealing

A bank of pieces is laid out at random.  The rings are walked from the inside out, each in random
order; every cell gets the next piece with a chance that depends on its ring, and some pieces go
only beside another piece.  Pieces that are left go beside others on cells drawn at random.  When a
piece finds no cell the deal starts over.

The pieces still to be dealt are a stack; a piece that was not placed goes back on top.
-/

namespace HexRules

open Coord

/-- The floating-point number nearest to `num / den`, exactly. -/
def nearestRatio (num den : Nat) : Rat := ((Binary64.ofRatio false num den).toRat?).getD 0

namespace Deal

/-- The chance that a cell of a ring gets a piece. -/
def ringChance (step : Nat) : Rat :=
  if step = 1 then 1 else if step % 2 = 1 then nearestRatio 8 10 else nearestRatio 2 10

variable {α γ : Type} [Generator γ]

/-- Pieces still to be dealt, the board so far and the generator. -/
structure Progress (α γ : Type) where
  pending : List α
  board : Board α
  gen : γ

/-- Walk cells while there are pieces.  `chance` is that of a cell to get a piece, `nearness` that
of a piece to go only beside another one. -/
def dealCells (chance nearness : Rat) : List Coord → Progress α γ → Progress α γ
  | [], p => p
  | c :: rest, p =>
    match p.pending with
    | [] => p
    | piece :: pending =>
      let first := Generator.random p.gen
      if chance < first.1 then dealCells chance nearness rest { p with gen := first.2 }
      else
        let second := Generator.random first.2
        match p.board.tryInsert c piece (decide (second.1 < nearness)) with
        | some board => dealCells chance nearness rest ⟨pending, board, second.2⟩
        | none => dealCells chance nearness rest { p with gen := second.2 }

/-- One ring, its cells in random order. -/
def dealRing (radius : Nat) (p : Progress α γ) (step : Nat) : Progress α γ :=
  let shuffled := Generator.shuffle (ring step origin) p.gen
  dealCells (ringChance step) (nearestRatio step radius) shuffled.1 { p with gen := shuffled.2 }

/-- All rings around the centre, from the inside out. -/
def dealRings (radius : Nat) (p : Progress α γ) : Progress α γ :=
  ((List.range radius).map (· + 1)).foldl (dealRing radius) p

/-- Draw cells until the piece goes beside another one. -/
def placeDrawn (cells : Array Coord) (piece : α) : Nat → Board α → γ → Option (Board α) × γ
  | 0, _, g => (none, g)
  | tries + 1, board, g =>
    let drawn := Generator.below cells.size g
    match cells[drawn.1]? with
    | none => placeDrawn cells piece tries board drawn.2
    | some c =>
      match board.tryInsert c piece true with
      | some board => (some board, drawn.2)
      | none => placeDrawn cells piece tries board drawn.2

/-- Place the pieces that are left, each with the same number of tries. -/
def placeRest (cells : Array Coord) (tries : Nat) : List α → Board α → γ → Option (Board α) × γ
  | [], board, g => (some board, g)
  | piece :: rest, board, g =>
    match placeDrawn cells piece tries board g with
    | (none, g) => (none, g)
    | (some board, g) => placeRest cells tries rest board g

/-- The empty board, or the one with the centre piece. -/
def firstBoard (radius : Nat) (center : Option α) : Board α :=
  match center with
  | none => Board.empty radius
  | some piece => (Board.empty radius).put origin (some piece) (Board.inBounds_origin _)

/-- One attempt to place the whole bank. -/
def attempt (bank : List α) (radius : Nat) (center : Option α) (tries : Nat) (g : γ) :
    Option (Board α) × γ :=
  let shuffled := Generator.shuffle bank g
  let dealt := dealRings radius ⟨shuffled.1.reverse, firstBoard radius center, shuffled.2⟩
  placeRest (hexRange radius origin).toArray tries dealt.pending dealt.board dealt.gen

/-- A dealt board and the number of the attempt that succeeded. -/
structure Dealt (α : Type) where
  board : Board α
  attempts : Nat

/-- Attempts until one succeeds, the next of them numbered `number`. -/
def attempts (bank : List α) (radius : Nat) (center : Option α) (tries : Nat) :
    Nat → Nat → γ → Option (Dealt α) × γ
  | 0, _, g => (none, g)
  | left + 1, number, g =>
    match attempt bank radius center tries g with
    | (some board, g) => (some ⟨board, number⟩, g)
    | (none, g) => attempts bank radius center tries left (number + 1) g

/-- Cells of the board that the bank can go to. -/
def capacity (radius : Int) (center : Option α) : Int :=
  (hexRangeOfInt radius origin).length - (if center.isSome then 1 else 0)

/-- Attempts for which none are named. -/
def defaultAttempts : Int := 1000

end Deal

open Deal in
/-- Lay out a bank on a fresh board, if wanted around a centre piece.  The number of attempts is
also the number of tries that each piece gets in one attempt. -/
def deal {α γ : Type} [Generator γ] (bank : List α) (radius : Int) (center : Option α)
    (maxAttempts : Int) (g : γ) : Except BoardError (Dealt α) × γ :=
  if capacity radius center < bank.length then
    (.error (.tooManyPieces bank.length (capacity radius center)), g)
  else if maxAttempts ≤ 0 then (.error (.gaveUp bank.length maxAttempts), g)
  else if radius < 0 then (.error .negativeRadius, g)
  else
    match attempts bank radius.toNat center maxAttempts.toNat maxAttempts.toNat 1 g with
    | (some dealt, g) => (.ok dealt, g)
    | (none, g) => (.error (.gaveUp bank.length maxAttempts), g)

end HexRules
