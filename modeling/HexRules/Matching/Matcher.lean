import HexRules.Matching.Assignment
import HexRules.Matching.Outcome
import HexRules.Matching.Predicate

/-!
# Matchers

A matcher compares a pattern with the pieces that are selected.  It succeeds with the position of
a candidate for every slot of the pattern; it is pending when the selection could grow into a
match.

A pattern of pieces only is compared as a multiset: pattern and candidates are sorted and walked
side by side.  A pattern with predicates is searched for an assignment of its slots to candidates,
and if there is none, of the candidates to its slots.
-/

namespace HexRules

inductive Matcher
  /-- Fixed pieces, a multiset. -/
  | literal (pieces : List Piece)
  | search (predicates : List Predicate)

namespace Matcher

/-- Number of slots. -/
def length : Matcher → Nat
  | literal pieces => pieces.length
  | search predicates => predicates.length

/-! ## Literal patterns -/

/-- Pieces with their indices, in the order of the pieces; equal pieces stay in index order. -/
def sorted (pieces : List Piece) : List (Piece × Nat) :=
  pieces.zipIdx.mergeSort fun a b => a.1.le b.1

/-- Walk a sorted pattern and sorted candidates side by side: for every slot the position of a
candidate equal to it, each position once, or none when some slot has no candidate left. -/
def mergeWalk : List (Piece × Nat) → List (Piece × Nat) → Option (List (Nat × Nat))
  | [], _ => some []
  | _ :: _, [] => none
  | (wanted, slot) :: slots, (found, position) :: rest =>
    if found = wanted then (mergeWalk slots rest).map ((slot, position) :: ·)
    else if found.lt wanted then mergeWalk ((wanted, slot) :: slots) rest
    else none

/-- Does a sorted pattern hold a distinct slot equal to each of the sorted candidates? -/
def covers : List Piece → List Piece → Bool
  | _, [] => true
  | [], _ :: _ => false
  | wanted :: slots, found :: rest =>
    if found = wanted then covers slots rest
    else if found.lt wanted then false
    else covers slots (found :: rest)

/-- The positions in the order of the slots. -/
def positions (slots : Nat) (pairs : List (Nat × Nat)) : List Nat :=
  (List.range slots).map fun slot => (findEntry slot pairs).getD 0

def testLiteral (pattern candidates : List Piece) : Outcome (List Nat) :=
  let slots := sorted pattern
  let order := sorted candidates
  match mergeWalk slots order with
  | some pairs => .success (positions pattern.length pairs)
  | none =>
    if candidates.length ≤ pattern.length && covers (slots.map Prod.fst) (order.map Prod.fst) then
      .pending
    else .failure

/-! ## Patterns with predicates -/

/-- Does the predicate of a slot accept the candidate at a position? -/
def slotAccepts (predicates : List Predicate) (candidates : List Piece) (slot position : Nat)
    (s : Scope) : Bool × Scope :=
  match predicates[slot]?, candidates[position]? with
  | some test, some p => test.test p s
  | _, _ => (false, s)

/-- Search for a candidate for every slot. -/
def searchSlots (predicates : List Predicate) (candidates : List Piece) (s : Scope) :
    Option (List Nat) × Scope :=
  if predicates.length ≤ candidates.length then
    assign predicates.length candidates.length (slotAccepts predicates candidates) s
  else (none, s)

/-- Search for a slot for every candidate, in a frame of its own. -/
def searchCandidates (predicates : List Predicate) (candidates : List Piece) (s : Scope) :
    Option (List Nat) × Scope :=
  if candidates.length ≤ predicates.length then
    s.frame (assign candidates.length predicates.length fun position slot =>
      slotAccepts predicates candidates slot position)
  else (none, s)

def testSearch (predicates : List Predicate) (candidates : List Piece) (s : Scope) :
    Outcome (List Nat) × Scope :=
  match searchSlots predicates candidates s with
  | (some chosen, s) => (.success chosen, s)
  | (none, s) =>
    match searchCandidates predicates candidates s with
    | (some _, s) => (.pending, s)
    | (none, s) => (.failure, s)

/-! ## All patterns -/

/-- Compare a pattern with candidates.  After a success the bindings of the accepting predicates
are in frames that stay pushed. -/
def test (m : Matcher) (candidates : List Piece) (s : Scope) : Outcome (List Nat) × Scope :=
  match m with
  | literal pieces => (testLiteral pieces candidates, s)
  | search predicates => testSearch predicates candidates s

end Matcher

end HexRules
