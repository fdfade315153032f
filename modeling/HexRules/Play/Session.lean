import HexRules.Definition
import HexRules.Hex.Deal
import HexRules.Random.Shared

/-!
# Sessions

A session is a game on its board with the cells that the player has selected so far.  A click
selects a cell, deselects, or makes a rule fire, which replaces the selected pieces.  What a click
reports are events.  The selection grows only after the select condition and the rules have been
evaluated, so an error in either leaves the session as it was.
-/

namespace HexRules

structure Session where
  definition : Definition
  selected : List Coord

namespace Session

/-- Name of the piece at the clicked cell in the select condition. -/
def selfName : String := "self"

/-- Name of the array of the pieces selected so far. -/
def selectedName : String := "selected"

def board (s : Session) : Board Piece := s.definition.game.board

/-- A session on a given board. -/
def onBoard (d : Definition) (b : Board Piece) : Session := ⟨d.withBoard b, []⟩

/-- A session on the empty board of the game's radius. -/
def start (d : Definition) : Session := onBoard d (Board.empty d.radius)

/-- A session on a freshly dealt board, with what dealing reports. -/
def newGame {γ : Type} [Generator γ] (d : Definition) (g : γ) :
    Except Error (Session × List Event) × γ :=
  match deal d.pieceBank d.radius d.center Deal.defaultAttempts g with
  | (.error e, g) => (.error (.board e), g)
  | (.ok dealt, g) =>
    (.ok (onBoard d dealt.board,
      [.boardDealt d.pieceBank.length d.radius dealt.attempts]), g)

/-- A session on a board that a generator of its own deals: one of a seed, or else the next child of
the shared sequence. -/
def spawnGame (d : Definition) (shared : Shared) (seed : Option Int) :
    Except Error (Session × List Event) × Shared :=
  match shared.spawn seed with
  | (.error e, shared) => (.error e, shared)
  | (.ok g, shared) => ((newGame d g).1, shared)

/-- The same session with another board. -/
def withBoard (s : Session) (b : Board Piece) : Session :=
  { s with definition := s.definition.withBoard b }

/-- The pieces on the selected cells. -/
def candidates (s : Session) : List Piece := s.selected.filterMap s.board.get?

/-- The scope of the select condition at a cell that holds `p`. -/
def selectScope (s : Session) (p : Piece) : Scope :=
  (Scope.empty.add selfName (.piece (some p))).add selectedName
    (.array (s.candidates.map fun q => .piece (some q)))

/-- Does the select condition hold at a cell?  It does not at an empty one. -/
def isSelectable (s : Session) (c : Coord) : Except EvalError Bool :=
  match s.board.get? c with
  | none => .ok false
  | some p => s.definition.select.test (s.definition.context c) (s.selectScope p)

/-- The cells among some that could be clicked next, and what testing them reports: those that can
be selected and at which the rules do not reject the selected pieces with the one that is there. -/
def selectableAmong (s : Session) : List Coord → Except EvalError (List Coord) × List Event
  | [] => (.ok [], [])
  | c :: rest =>
    if c ∈ s.selected then selectableAmong s rest
    else
      match s.isSelectable c with
      | .error e => (.error e, [])
      | .ok false => selectableAmong s rest
      | .ok true =>
        let pieces := s.candidates ++ (s.board.get? c).toList
        match (s.definition.rules.test (s.definition.context c) pieces Scope.empty).1 with
        | .error e => (.error e, [])
        | .ok o =>
          let others := selectableAmong s rest
          (others.1.map fun cs => if o.isValid then c :: cs else cs,
            RuleSet.testEvents pieces (.ok o) ++ others.2)

/-- The cells that could be clicked next without being rejected, in listing order. -/
def selectable (s : Session) : Except EvalError (List Coord) × List Event :=
  selectableAmong s s.board.occupied

/-- Put replacements on cells, cell by cell, up to the first cell that is off the board. -/
def replaceAll : List (Coord × Option Piece) → Board Piece → Except BoardError Unit × Board Piece
  | [], b => (.ok (), b)
  | (c, p) :: rest, b =>
    match b.set c p with
    | .error e => (.error e, b)
    | .ok (_, b) => replaceAll rest b

/-- The status of a click, the session after it, and what it reports. -/
structure Clicked where
  status : Except Error Status
  session : Session
  events : List Event

/-- A click on a cell that is not selected and can be selected, by the outcome of the rules. -/
def clickOutcome (s : Session) (c : Coord) (o : Outcome RuleMatch) : Clicked :=
  match o with
  | .success m =>
    let cells := s.selected ++ [c]
    let matched : Event := .ruleMatched m.rule (s.candidates.length + 1)
    match replaceAll (cells.zip m.replacements) s.board with
    | (.error e, b) => ⟨.error (.board e), s.withBoard b, [matched]⟩
    | (.ok (), b) =>
      ⟨.ok .success, { s.withBoard b with selected := [] }, [matched, .ruleApplied cells]⟩
  | .pending => ⟨.ok .pending, { s with selected := s.selected ++ [c] }, []⟩
  | .failure => ⟨.ok .failure, s, []⟩

/-- Click on a cell.  The last selected cell is deselected, another selected cell or an empty one
clears the selection; any other cell is selected if the select condition and the rules allow it,
and a rule that succeeds is applied. -/
def click (s : Session) (c : Coord) : Clicked :=
  if !s.board.inBounds c then ⟨.error (.board (.outside c)), s, []⟩
  else if c ∈ s.selected then
    if s.selected.getLast? = some c then
      ⟨.ok .pending, { s with selected := s.selected.dropLast }, []⟩
    else ⟨.ok .pending, { s with selected := [] }, []⟩
  else
    match s.board.get? c with
    | none => ⟨.ok .pending, { s with selected := [] }, []⟩
    | some p =>
      match s.isSelectable c with
      | .error e => ⟨.error (.eval e), s, []⟩
      | .ok false => ⟨.ok .failure, s, []⟩
      | .ok true =>
        match (s.definition.rules.test (s.definition.context c) (s.candidates ++ [p])
          Scope.empty).1 with
        | .error e => ⟨.error (.eval e), s, []⟩
        | .ok o => s.clickOutcome c o

/-- Put a piece on a cell past the rules, and answer what was there. -/
def setPiece (s : Session) (c : Coord) (p : Option Piece) :
    Except BoardError (Option Piece × Session) := do
  let (previous, board) ← s.board.set c p
  .ok (previous, s.withBoard board)

def isWon (s : Session) : Bool := s.board.isEmpty

end Session

end HexRules
