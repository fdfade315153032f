import HexRules.Play.Session

/-!
# Playing by itself

`findMove` looks for one cell or two that some rule accepts, and `playFrom` clicks such moves until
none is left, the board is empty or a move does not succeed.  Moves are counted down from
`moveLimit`, which a game does not reach if each of its moves lessens the number of pieces on the
board plus that of the pieces of one kind.
-/

namespace HexRules.Autoplay

open Session

/-- Pairs of items, an earlier one first, in the order of their first items. -/
def pairs {α : Type} : List α → List (List α)
  | [] => []
  | a :: rest => rest.map (fun b => [a, b]) ++ pairs rest

/-- Selections of one cell, then of two. -/
def selections (cells : List Coord) : List (List Coord) := cells.map (fun c => [c]) ++ pairs cells

/-- Do the rules accept the pieces of a selection, seen from its last cell? -/
def accepts (s : Session) (cells : List Coord) : Except EvalError Bool :=
  let pieces := cells.filterMap s.board.get?
  let ctx := s.definition.context (cells.getLast?.getD Coord.origin)
  match (s.definition.rules.test ctx pieces Scope.empty).1 with
  | .error e => .error e
  | .ok (.success _) => .ok true
  | .ok _ => .ok false

/-- The first selection that the rules accept. -/
def firstAccepted (s : Session) : List (List Coord) → Except EvalError (Option (List Coord))
  | [] => .ok none
  | cells :: rest =>
    match accepts s cells with
    | .error e => .error e
    | .ok true => .ok (some cells)
    | .ok false => firstAccepted s rest

/-- The first single cell or pair of selectable cells that some rule accepts. -/
def findMove (s : Session) : Except EvalError (Option (List Coord)) :=
  match s.selectable.1 with
  | .error e => .error e
  | .ok cells => firstAccepted s (selections cells)

/-- Click on cells one after the other: the status of the last click, and the session after it. -/
def clickAll (s : Session) : Status → List Coord → Except Error (Status × Session)
  | status, [] => .ok (status, s)
  | _, c :: rest =>
    let clicked := s.click c
    match clicked.status with
    | .error e => .error e
    | .ok status => clickAll clicked.session status rest

/-- A game as far as it has been played. -/
structure Played where
  moves : Nat
  session : Session
  events : List Event

/-- Play on, at most `left` more moves. -/
def playFrom : Nat → Played → Except Error Played
  | 0, p => .ok p
  | left + 1, p =>
    if p.session.isWon then .ok p
    else
      match findMove p.session with
      | .error e => .error (.eval e)
      | .ok none => .ok p
      | .ok (some cells) =>
        match clickAll p.session .pending cells with
        | .error e => .error e
        | .ok (status, s) =>
          let next : Played := ⟨p.moves + 1, s, p.events ++ [.moved (p.moves + 1) cells status]⟩
          if status = .success then playFrom left next else .ok next

/-- More than the pieces on the board and those of any one kind together. -/
def moveLimit (s : Session) : Nat := 4 * s.board.coords.length + 4

/-- Play a game that has been dealt under a name, and report it. -/
def play (name : String) (s : Session) : Except Error (List Event) :=
  match playFrom (moveLimit s) ⟨0, s, [.gameDealt name s.board.occupied.length]⟩ with
  | .error e => .error e
  | .ok p => .ok (p.events ++
      [.gameOver p.moves p.session.board.occupied.length p.session.isWon])

end HexRules.Autoplay
