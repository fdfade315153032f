import HexRules.Eval.Scope

/-!
# Predicates

A predicate accepts or refuses one piece, and may bind names in the innermost frame of the scope
when it accepts.
-/

namespace HexRules

inductive Predicate
  /-- Accepts one piece. -/
  | literal (piece : Piece)
  /-- Accepts the members of a set, and may bind the piece. -/
  | member (members : List Piece) (bind : Option String)
  /-- Accepts the keys of a mapping, and may bind the key and its value. -/
  | key (table : Table Piece Piece) (bindKey bindValue : Option String)

namespace Predicate

/-- Bind a piece to a name, if there is one. -/
def bindPiece (s : Scope) (name : Option String) (p : Piece) : Scope :=
  match name with
  | some n => s.add n (.piece (some p))
  | none => s

def test : Predicate → Piece → Scope → Bool × Scope
  | literal wanted, p, s => (decide (p = wanted), s)
  | member members bind, p, s =>
    if p ∈ members then (true, bindPiece s bind p) else (false, s)
  | key table bindKey bindValue, p, s =>
    match table.get? p with
    | some value => (true, bindPiece (bindPiece s bindKey p) bindValue value)
    | none => (false, s)

end Predicate

end HexRules
