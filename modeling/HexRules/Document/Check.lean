import HexRules.Document.Problem
import HexRules.Json.Basic
import HexRules.Number.IntegerText

/-!
# Checking parts of documents

A check turns JSON into a typed value or into all the problems it has: where two parts are
checked, the problems of both are kept.
-/

namespace HexRules

/-- A value, or every problem that keeps it from being one. -/
abbrev Checked (α : Type) := Except (List Problem) α

namespace Checked

variable {α β : Type}

def fail (path : List String) (kind : ProblemKind) : Checked α := .error [⟨path, kind⟩]

/-- Both values, or the problems of both. -/
def both : Checked α → Checked β → Checked (α × β)
  | .ok a, .ok b => .ok (a, b)
  | .ok _, .error q => .error q
  | .error p, .ok _ => .error p
  | .error p, .error q => .error (p ++ q)

/-- All values, or the problems of all. -/
def all : List (Checked α) → Checked (List α)
  | [] => .ok []
  | c :: rest => (both c (all rest)).map fun pair => pair.1 :: pair.2

end Checked

namespace Check

/-! ## Texts and lists -/

def text (path : List String) : Json → Checked String
  | .string s => .ok s
  | _ => .fail path .notText

/-- A text or nothing. -/
def optionalText (path : List String) : Json → Checked (Option String)
  | .null => .ok none
  | j => (text path j).map some

def nonemptyText (path : List String) : Json → Checked String
  | .string s => if s.isEmpty then .fail path .emptyText else .ok s
  | _ => .fail path .notText

/-- The items of a list, each checked under its index. -/
def list {α : Type} (item : List String → Json → Checked α) (path : List String) :
    Json → Checked (List α)
  | .array items =>
    .all (items.zipIdx.map fun entry => item (path ++ [toString entry.2]) entry.1)
  | _ => .fail path .notList

def nonemptyList {α : Type} (item : List String → Json → Checked α) (path : List String) :
    Json → Checked (List α)
  | .array [] => .fail path .emptyList
  | j => list item path j

/-- The members of a table, each value checked under its key. -/
def table {α : Type} (value : List String → Json → Checked α) (path : List String) :
    Json → Checked (List (String × α))
  | .object members =>
    .all (members.map fun entry =>
      (value (path ++ [entry.1]) entry.2).map fun v => (entry.1, v))
  | _ => .fail path .notTable

/-! ## Counts -/

/-- Floating-point numbers from here on are too large for a count, and so are their negatives. -/
def integerLimit : Int := Nat.pow 2 63

/-- The integer that a JSON value stands for.  Truth values count as 0 and 1. -/
def integer (path : List String) : Json → Checked Int
  | .bool b => .ok (if b then 1 else 0)
  | .number (.int n) => .ok n
  | .number (.float (.infinite _)) => .fail path .notFinite
  | .number (.float x) =>
    match x.toInt? with
    | none => .fail path .fraction
    | some n =>
      if -integerLimit < n ∧ n < integerLimit then .ok n else .fail path .integerTooLarge
  | .string s =>
    match IntegerText.read s with
    | .ok n => .ok n
    | .error .malformed => .fail path .notIntegerText
    | .error .tooLong => .fail path .integerTooLarge
  | _ => .fail path .notInteger

def count (path : List String) (j : Json) : Checked Nat :=
  match integer path j with
  | .error problems => .error problems
  | .ok n => if n < 0 then .fail path .negative else .ok n.toNat

/-! ## Objects -/

/-- Most documents that are nested in one another, the outermost one among them. -/
def maxNesting : Nat := 255

/-- A field that must be there. -/
def required {α : Type} (value : List String → Json → Checked α) (path : List String)
    (members : List (String × Json)) (key : String) : Checked α :=
  match findEntry key members with
  | some j => value (path ++ [key]) j
  | none => .fail (path ++ [key]) .missing

/-- A field with a value for its absence. -/
def optional {α : Type} (value : List String → Json → Checked α) (absent : α) (path : List String)
    (members : List (String × Json)) (key : String) : Checked α :=
  match findEntry key members with
  | some j => value (path ++ [key]) j
  | none => .ok absent

/-- No field but the known ones. -/
def onlyFields (known : List String) (path : List String) (members : List (String × Json)) :
    Checked Unit :=
  match members.filter fun entry => entry.1 ∉ known with
  | [] => .ok ()
  | unknown => .error (unknown.map fun entry => ⟨path ++ [entry.1], .unknownField⟩)

end Check

end HexRules
