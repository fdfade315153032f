import HexRules.Eval.Expression
import HexRules.Matching.Matcher

/-!
# Rule chains

A rule is a chain of links.  Each link matches a pattern against the pieces that the links before
it left over, its guard is tested, and the next link goes on with the rest; the chain succeeds when
no piece is left at its end.  Every slot of every link has a result, the piece that takes the place
of the piece matched there.

Names that a link binds are seen by its guard, by later links and by all results.  All of them are
dropped before `Chain.test` returns, errors included.
-/

namespace HexRules

/-- A pattern, its guard and a result for each of its slots. -/
structure Link where
  matcher : Matcher
  guard : Option Expression
  results : List Expression
  length_results : results.length = matcher.length

/-- One link or more. -/
structure Chain where
  first : Link
  next : List Link

/-- A piece that takes the place of the candidate at an index; none clears it. -/
abbrev Replacement := Nat × Option Piece

namespace Link

/-- A link has as many results as slots. -/
def build (matcher : Matcher) (guard : Option Expression) (results : List Expression) :
    Except CompileError Link :=
  if h : results.length = matcher.length then .ok ⟨matcher, guard, results, h⟩
  else .error (.resultCount matcher.length results.length)

/-- A link that does not have a guard lets every match pass. -/
def guardHolds (l : Link) (ctx : Context) (s : Scope) : Except EvalError Bool :=
  match l.guard with
  | some e => e.test ctx s
  | none => .ok true

/-- The candidates at positions that were not chosen, in order. -/
def leftover {α : Type} (candidates : List α) (chosen : List Nat) : List α :=
  (candidates.zipIdx.filter fun c => c.2 ∉ chosen).map Prod.fst

end Link

/-- A link that has matched: the link and, slot by slot, the index of the candidate matched. -/
structure Matched where
  link : Link
  indices : List Nat

/-- The indices of the candidates at the chosen positions. -/
def indicesAt (indexed : List (Nat × Piece)) (chosen : List Nat) : List Nat :=
  chosen.filterMap fun position => (indexed[position]?).map Prod.fst

namespace Chain

def links (c : Chain) : List Link := c.first :: c.next

/-- The length of the pattern of each link. -/
def lengths (c : Chain) : List Nat := c.links.map fun l => l.matcher.length

/-- Match links one after the other against indexed candidates, each link in a frame of its own.
Frames stay pushed; the caller drops them. -/
def walk (ctx : Context) :
    List Link → List (Nat × Piece) → Scope → Except EvalError (Outcome (List Matched)) × Scope
  | [], indexed, s => (.ok (if indexed.isEmpty then .success [] else .failure), s)
  | l :: rest, indexed, s =>
    match l.matcher.test (indexed.map Prod.snd) s.push with
    | (.pending, s) => (.ok .pending, s)
    | (.failure, s) => (.ok .failure, s)
    | (.success chosen, s) =>
      match l.guardHolds ctx s with
      | .error e => (.error e, s)
      | .ok false => (.ok .failure, s)
      | .ok true =>
        match walk ctx rest (Link.leftover indexed chosen) s with
        | (.ok (.success matched), s) =>
          (.ok (.success (⟨l, indicesAt indexed chosen⟩ :: matched)), s)
        | other => other

/-- The replacements of one link, slot by slot. -/
def linkReplacements (ctx : Context) (s : Scope) (m : Matched) :
    Except EvalError (List Replacement) :=
  (m.indices.zip m.link.results).mapM fun slot => do
    let p ← slot.2.replacement ctx s
    .ok (slot.1, p)

/-- The replacements of all links, the last link first. -/
def replacements (ctx : Context) (s : Scope) (matched : List Matched) :
    Except EvalError (List Replacement) := do
  let parts ← matched.reverse.mapM (linkReplacements ctx s)
  .ok parts.flatten

/-- Match the links and evaluate the results; frames stay pushed. -/
def matchAll (c : Chain) (ctx : Context) (candidates : List Piece) (s : Scope) :
    Except EvalError (Outcome (List Replacement)) × Scope :=
  match walk ctx c.links (candidates.zipIdx.map Prod.swap) s with
  | (.error e, s) => (.error e, s)
  | (.ok .pending, s) => (.ok .pending, s)
  | (.ok .failure, s) => (.ok .failure, s)
  | (.ok (.success matched), s) =>
    match replacements ctx s matched with
    | .error e => (.error e, s)
    | .ok rs => (.ok (.success rs), s)

/-- Match the chain against all candidates.  A success has a replacement for every candidate; the
scope is the one before, whatever the outcome. -/
def test (c : Chain) (ctx : Context) (candidates : List Piece) (s : Scope) :
    Except EvalError (Outcome (List Replacement)) × Scope :=
  s.frame (c.matchAll ctx candidates)

end Chain

end HexRules
