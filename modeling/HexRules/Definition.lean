import HexRules.Document.Game
import HexRules.Rules.Compile

/-!
# Game definitions

A compiled game: its catalog and board, its rules, the condition under which a cell can be
selected, and what is dealt.

    (d.withBoard b).game.board = b, and nothing else changes
    d.pieceBank lists each piece of the bank as often as its count says
-/

namespace HexRules

structure Definition where
  game : Game
  rules : RuleSet
  select : Expression
  radius : Nat
  center : Option Piece
  bank : Table Piece Nat

namespace Definition

def id (d : Definition) : String := d.game.catalog.id

/-- The pieces dealt around the centre, in the order of the pieces. -/
def pieceBank (d : Definition) : List Piece :=
  (d.bank.entries.mergeSort fun a b => a.1.le b.1).flatMap fun e => List.replicate e.2 e.1

/-- The same game evaluated against another board. -/
def withBoard (d : Definition) (b : Board Piece) : Definition :=
  { d with game := d.game.withBoard b }

def context (d : Definition) (pos : Coord) : Context := ⟨d.game, pos⟩

/-! ## Compiling -/

/-- One entry of the bank, its name resolved. -/
def bankEntry (game : Game) (e : String × Nat) : Except CompileError (Piece × Nat) := do
  let p ← game.catalog.resolve e.1
  .ok (p, e.2)

/-- Compile a game that has been checked, against a board. -/
def compileOn (functions : Registry FunctionBuilder) (predicates : Registry PredicateKind)
    (board : Board Piece) (d : GameDocument) : Except CompileError Definition := do
  let catalog ← Catalog.build d.id d.nodes d.tags d.mappings
  let game : Game := ⟨catalog, board⟩
  let compiler : Compiler := ⟨game, functions, predicates⟩
  let rules ← compiler.ruleSet d.rules
  let select ← compiler.expression d.select
  let center ← d.center.mapM game.catalog.resolve
  let bank ← d.bank.mapM (bankEntry game)
  .ok ⟨game, rules, select, d.radius, center, Table.ofList bank⟩

/-- Compile a game that has been checked, against the empty board of its radius. -/
def compile (d : GameDocument) : Except CompileError Definition :=
  compileOn builtinFunctions builtinPredicates (Board.empty d.radius) d

/-- Check a game and compile it. -/
def ofJson (j : Json) : Except CompileError Definition :=
  match GameDocument.check j with
  | .ok d => compile d
  | .error problems => .error (.invalid .game problems)

/-- What loading a game reports. -/
def events (d : Definition) : List Event :=
  d.rules.events ++ [.gameLoaded d.id d.game.catalog.pieces.length d.rules.size]

end Definition

end HexRules
