import HexRules.Catalog
import HexRules.Eval.Scope

/-!
# Expressions

Compiled conditions and results.  Evaluating one reads the board around a cell and the scope, and
changes neither.  Branches that are not taken and the rest of a decided conjunction, disjunction
or comparison are not evaluated.
-/

namespace HexRules

inductive Expression
  | const (value : Value)
  /-- The value bound to a name. -/
  | binding (name : String)
  | array (items : List Expression)
  | branch (cond whenTrue whenFalse : Expression)
  | all (operands : List Expression)
  | any (operands : List Expression)
  | equal (operands : List Expression)
  /-- Has the longest run of empty neighbours at least this length? -/
  | openRun (length : Expression)
  | lookup (table : Table Piece Piece) (key : Expression)
  | onBoard (piece : Expression)

/-- The board and the cell that an expression is evaluated at. -/
structure Context where
  game : Game
  pos : Coord

/-! ## Runs of empty neighbours -/

/-- The longest run of `false` that some `true` ends. -/
def longestClosedRun : Nat → Nat → List Bool → Nat
  | _, longest, [] => longest
  | run, longest, true :: rest => longestClosedRun 0 (max longest run) rest
  | run, longest, false :: rest => longestClosedRun (run + 1) longest rest

/-- The longest cyclic run of `false`: the list is turned so that it ends on a `true`, which closes
every run. -/
def longestOpenRun (occupied : List Bool) : Nat :=
  if true ∈ occupied then
    let first := occupied.idxOf true
    longestClosedRun 0 0 (occupied.drop (first + 1) ++ occupied.take (first + 1))
  else occupied.length

namespace Context

/-- Which neighbours hold a piece, direction by direction. -/
def occupiedNeighbors (ctx : Context) : List Bool :=
  ctx.pos.neighbors.map fun c => (ctx.game.board.get? c).isSome

def openRunLength (ctx : Context) : Nat := longestOpenRun ctx.occupiedNeighbors

end Context

namespace Expression

/-- The value that a table has for a piece; the empty piece where it has none. -/
def lookupPiece (table : Table Piece Piece) : Option Piece → Value
  | none => .piece none
  | some p => .piece (table.get? p)

/-- Does the board hold a piece?  It never holds the empty piece. -/
def boardHolds (game : Game) : Option Piece → Bool
  | none => false
  | some p => game.onBoard p

mutual

def eval (ctx : Context) (s : Scope) : Expression → Except EvalError Value
  | const v => .ok v
  | binding n =>
    match s.get? n with
    | some v => .ok v
    | none => .error (.unbound n)
  | array items => do
    let values ← evalItems ctx s items
    .ok (.array values)
  | branch cond whenTrue whenFalse => do
    let v ← eval ctx s cond
    let b ← v.toBool
    if b then eval ctx s whenTrue else eval ctx s whenFalse
  | all operands => evalAll ctx s operands
  | any operands => evalAny ctx s operands
  | equal operands => evalEqual ctx s none operands
  | openRun length => do
    let v ← eval ctx s length
    let target ← v.toInt
    .ok (.bool (decide (target ≤ (ctx.openRunLength : Int))))
  | lookup table key => do
    let v ← eval ctx s key
    let p ← v.toPiece
    .ok (lookupPiece table p)
  | onBoard piece => do
    let v ← eval ctx s piece
    let p ← v.toPiece
    .ok (.bool (boardHolds ctx.game p))

def evalItems (ctx : Context) (s : Scope) : List Expression → Except EvalError (List Value)
  | [] => .ok []
  | e :: rest => do
    let v ← eval ctx s e
    let vs ← evalItems ctx s rest
    .ok (v :: vs)

/-- True unless some operand is false; operands after that one are not evaluated. -/
def evalAll (ctx : Context) (s : Scope) : List Expression → Except EvalError Value
  | [] => .ok (.bool true)
  | e :: rest => do
    let v ← eval ctx s e
    let b ← v.toBool
    if b then evalAll ctx s rest else .ok (.bool false)

/-- False unless some operand is true; operands after that one are not evaluated. -/
def evalAny (ctx : Context) (s : Scope) : List Expression → Except EvalError Value
  | [] => .ok (.bool false)
  | e :: rest => do
    let v ← eval ctx s e
    let b ← v.toBool
    if b then .ok (.bool true) else evalAny ctx s rest

/-- True unless some operand differs from the first; operands after that one are not evaluated. -/
def evalEqual (ctx : Context) (s : Scope) : Option Value → List Expression →
    Except EvalError Value
  | _, [] => .ok (.bool true)
  | none, e :: rest => do
    let v ← eval ctx s e
    evalEqual ctx s (some v) rest
  | some first, e :: rest => do
    let v ← eval ctx s e
    if v.same first then evalEqual ctx s (some first) rest else .ok (.bool false)

end

/-- Evaluate to a truth value. -/
def test (ctx : Context) (s : Scope) (e : Expression) : Except EvalError Bool := do
  let v ← e.eval ctx s
  v.toBool

/-- Evaluate to a piece or the empty piece. -/
def replacement (ctx : Context) (s : Scope) (e : Expression) :
    Except EvalError (Option Piece) := do
  let v ← e.eval ctx s
  v.toPiece

end Expression

end HexRules
