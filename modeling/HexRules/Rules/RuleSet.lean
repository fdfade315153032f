import HexRules.Event
import HexRules.Rules.Chain

/-!
# Rule sets

Rules are tried in order, and the first that succeeds wins; an error in a rule that is reached
ends the test.  When no rule succeeds, the selection is pending if some rule said so.
-/

namespace HexRules

structure RuleSet where
  rules : List Chain

/-- A success of a rule set: the number of the rule, and for every candidate what takes its place. -/
structure RuleMatch where
  rule : Nat
  replacements : List (Option Piece)
  deriving DecidableEq, Repr

namespace RuleSet

def empty : RuleSet := ⟨[]⟩

def size (t : RuleSet) : Nat := t.rules.length

/-- Add a rule after all others. -/
def add (t : RuleSet) (c : Chain) : RuleSet := ⟨t.rules ++ [c]⟩

/-- The replacements in the order of the candidates. -/
def inOrder (count : Nat) (rs : List Replacement) : List (Option Piece) :=
  (List.range count).map fun index => (findEntry index rs).getD none

/-- Try rules in order, the first of them numbered `number`; `pending` says whether an earlier rule
was pending. -/
def testFrom (ctx : Context) (candidates : List Piece) :
    Nat → Bool → List Chain → Scope → Except EvalError (Outcome RuleMatch) × Scope
  | _, pending, [], s => (.ok (if pending then .pending else .failure), s)
  | number, pending, c :: rest, s =>
    match c.test ctx candidates s with
    | (.error e, s) => (.error e, s)
    | (.ok (.success rs), s) => (.ok (.success ⟨number, inOrder candidates.length rs⟩), s)
    | (.ok .pending, s) => testFrom ctx candidates (number + 1) true rest s
    | (.ok .failure, s) => testFrom ctx candidates (number + 1) pending rest s

def test (t : RuleSet) (ctx : Context) (candidates : List Piece) (s : Scope) :
    Except EvalError (Outcome RuleMatch) × Scope :=
  testFrom ctx candidates 0 false t.rules s

/-- What a test reports. -/
def testEvents (candidates : List Piece) : Except EvalError (Outcome RuleMatch) → List Event
  | .ok (.success m) => [.ruleMatched m.rule candidates.length]
  | _ => []

end RuleSet

/-! ## Reports on compiled patterns -/

/-- Patterns with more predicates than this are reported. -/
def longPatternLength : Nat := 3

def Matcher.events : Matcher → List Event
  | .literal _ => []
  | .search predicates =>
    if longPatternLength < predicates.length then [.longPattern predicates.length] else []

def Chain.events (c : Chain) : List Event := c.links.flatMap fun l => l.matcher.events

def RuleSet.events (t : RuleSet) : List Event := t.rules.flatMap Chain.events

end HexRules
