import HexRules.Matching.Matcher
import HexRules.Proofs.Scope
import Mathlib.Data.List.Forall2

/-!
# Slots of a pattern

A pattern of either kind has slots, and a slot is a predicate: whether it accepts a piece depends
on the piece only, and so does what it binds.

    q.test p s = (q.accepts p, if q.accepts p then s.bindAll (q.binds p) else s)   (test_eq)

`m.Fits candidates chosen` says that every slot of `m` has a candidate of its own that it accepts;
`m.bound pieces s` is the scope that a search leaves when the slots have taken `pieces`.
-/

namespace HexRules

namespace Predicate

/-- Does the predicate accept the piece? -/
def accepts : Predicate → Piece → Bool
  | literal wanted, p => decide (p = wanted)
  | member members _, p => decide (p ∈ members)
  | key table _ _, p => (table.get? p).isSome

/-- A piece bound to a name, if there is one. -/
def pieceBinding (name : Option String) (p : Piece) : List Binding :=
  name.toList.map fun n => (n, .piece (some p))

/-- What the predicate binds for a piece that it accepts, in the order in which it does. -/
def binds : Predicate → Piece → List Binding
  | literal _, _ => []
  | member _ bind, p => pieceBinding bind p
  | key table bindKey bindValue, p =>
    pieceBinding bindKey p ++ (table.get? p).toList.flatMap (pieceBinding bindValue)

theorem bindPiece_eq (s : Scope) (name : Option String) (p : Piece) :
    bindPiece s name p = s.bindAll (pieceBinding name p) := by
  cases name <;> rfl

theorem test_eq (q : Predicate) (p : Piece) (s : Scope) :
    q.test p s = (q.accepts p, if q.accepts p then s.bindAll (q.binds p) else s) := by
  cases q with
  | literal wanted => simp [test, accepts, binds, Scope.bindAll]
  | member members bind =>
    by_cases h : p ∈ members <;> simp [test, accepts, binds, h, bindPiece_eq]
  | key table bindKey bindValue =>
    cases h : table.get? p with
    | none => simp [test, accepts, h]
    | some value =>
      simp [test, accepts, binds, h, bindPiece_eq, Scope.bindAll_append]

end Predicate

namespace Matcher

/-- The slots as they are written. -/
def slots : Matcher → List Predicate
  | literal pieces => pieces.map .literal
  | search predicates => predicates

theorem length_slots (m : Matcher) : m.slots.length = m.length := by
  cases m <;> simp [slots, length]

/-- The pieces at some positions. -/
def piecesAt (candidates : List Piece) (chosen : List Nat) : List Piece :=
  chosen.filterMap fun position => candidates[position]?

/-- What the slots bind for the pieces that they take, slot by slot. -/
def slotBinds (m : Matcher) (pieces : List Piece) : List (List Binding) :=
  m.slots.zipWith Predicate.binds pieces

/-- What the slots bind for the pieces that they take, in the order in which they do. -/
def binds (m : Matcher) (pieces : List Piece) : List Binding := (m.slotBinds pieces).flatten

/-- Every slot takes a candidate that it accepts, and no candidate is taken twice. -/
structure Fits (m : Matcher) (candidates : List Piece) (chosen : List Nat) : Prop where
  nodup : chosen.Nodup
  takes : List.Forall₂ (fun q position => ∃ p, candidates[position]? = some p ∧ q.accepts p = true)
    m.slots chosen

theorem Fits.accepts {m : Matcher} {candidates : List Piece} {chosen : List Nat}
    (h : m.Fits candidates chosen) :
    List.Forall₂ (fun q p => q.accepts p = true) m.slots (piecesAt candidates chosen) := by
  obtain ⟨-, htakes⟩ := h
  generalize m.slots = qs at htakes
  induction htakes with
  | nil => exact .nil
  | cons hq _ ih =>
    obtain ⟨p, hp, ha⟩ := hq
    rw [piecesAt, List.filterMap_cons, hp]
    exact .cons ha ih

/-- The scope that a match leaves: a search keeps a frame for every slot. -/
def bound (m : Matcher) (pieces : List Piece) (s : Scope) : Scope :=
  match m with
  | literal _ => s
  | search _ => s.pushAll (m.slotBinds pieces)

theorem binds_literal (wanted pieces : List Piece) : (literal wanted).binds pieces = [] := by
  rw [binds, slotBinds, slots]
  induction wanted generalizing pieces with
  | nil => rfl
  | cons w rest ih =>
    cases pieces with
    | nil => rfl
    | cons p pieces => exact ih pieces

theorem get?_bound (m : Matcher) (pieces : List Piece) (s : Scope) (name : String) :
    (m.bound pieces s).get? name = (findEntry name (m.binds pieces).reverse).or (s.get? name) := by
  cases m with
  | literal wanted =>
    rw [binds_literal]
    rfl
  | search predicates => exact s.get?_pushAll _ name

theorem extends_bound (m : Matcher) (pieces : List Piece) (s : Scope) :
    s.Extends (m.bound pieces s) := by
  cases m with
  | literal wanted => exact .refl s
  | search predicates => exact (Scope.Extends.refl s).pushAll _

end Matcher

end HexRules
