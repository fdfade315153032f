import HexRules.Document.Game

/-!
# Writing documents

Short forms for the parts of documents that are written in Lean: conditions, slots and rules.
-/

namespace HexRules.Build

/-! ## Conditions -/

def number (n : Nat) : Json := .number (.int n)

/-- A bound name. -/
def bound (name : String) : Json := .string ("@" ++ name)

/-- A function of several values. -/
def call (type : String) (values : List Json) : Json :=
  .object [("type", .string type), ("values", .array values)]

/-- A function of one value. -/
def apply (type : String) (value : Json) : Json :=
  .object [("type", .string type), ("value", value)]

def lookup (mapping : String) (value : Json) : Json :=
  .object [("type", .string "lookup"), ("mapping", .string mapping), ("value", value)]

def branch (cond whenTrue whenFalse : Json) : Json :=
  .object [("type", .string "if"), ("cond", cond), ("then", whenTrue), ("else", whenFalse)]

def equal (values : List Json) : Json := call "equals" values

/-! ## Slots -/

def optionalText (key : String) : Option String → List (String × Json)
  | some s => [(key, .string s)]
  | none => []

/-- A member of a tag. -/
def member (tag : String) (bind : Option String) : InputItem :=
  .object ([("type", .string "mapping-key"), ("tag", .string tag)] ++ optionalText "bind" bind)

/-- A key of a mapping, whose value may be bound. -/
def key (mapping : String) (bindValue : Option String) : InputItem :=
  .object ([("type", .string "tag"), ("mapping", .string mapping)] ++
    optionalText "bind-val" bindValue)

/-! ## Rules -/

/-- A rule of one link. -/
def rule (input : List InputItem) (guard : Option Json) (result : Option (List Json)) :
    RuleDocument := ⟨⟨input, guard, result⟩, []⟩

/-- A rule that clears the pieces it matches. -/
def clear (input : List InputItem) : RuleDocument := rule input none none

/-- Clear the named pieces. -/
def clearPieces (names : List String) : RuleDocument := clear (names.map .piece)

end HexRules.Build
