import HexRules.Json.Basic

/-!
# Schemas of documents

Rule and game documents described as JSON schemas: the shape of every field, its bounds, its
default and a word on what it is for.
-/

namespace HexRules.Schema

/-! ## Shapes -/

inductive Shape
  | any
  | null
  | text (minLength : Option Nat)
  | integer (minimum : Option Nat)
  | list (item : Shape) (minItems : Option Nat)
  /-- An object whose members all have one shape. -/
  | table (value : Shape)
  /-- An object with any members. -/
  | freeObject
  /-- A shape defined elsewhere. -/
  | defined (name : String)
  | either (first second : Shape)

def number (n : Nat) : Json := .number (.int n)

def bound (key : String) : Option Nat → List (String × Json)
  | some n => [(key, number n)]
  | none => []

def typed (type : String) (rest : List (String × Json)) : List (String × Json) :=
  ("type", .string type) :: rest

def Shape.members : Shape → List (String × Json)
  | any => []
  | null => typed "null" []
  | text minLength => typed "string" (bound "minLength" minLength)
  | integer minimum => typed "integer" (bound "minimum" minimum)
  | list item minItems =>
    typed "array" (("items", .object item.members) :: bound "minItems" minItems)
  | table value => typed "object" [("additionalProperties", .object value.members)]
  | freeObject => typed "object" [("additionalProperties", .bool true)]
  | defined name => [("$ref", .string ("#/$defs/" ++ name))]
  | either first second => [("anyOf", .array [.object first.members, .object second.members])]

/-- A shape or null. -/
def Shape.orNull (s : Shape) : Shape := .either s .null

/-! ## Fields and objects -/

structure Field where
  name : String
  shape : Shape
  title : Option String
  description : Option String
  default : Option Json
  required : Bool

def optionalMember (key : String) : Option Json → List (String × Json)
  | some j => [(key, j)]
  | none => []

def Field.json (f : Field) : Json :=
  .object (f.shape.members ++ optionalMember "title" (f.title.map .string) ++
    optionalMember "description" (f.description.map .string) ++
    optionalMember "default" f.default)

/-- An object with named fields and no others. -/
structure Record where
  title : String
  description : String
  fields : List Field

def Record.members (r : Record) : List (String × Json) :=
  [("additionalProperties", .bool false),
   ("description", .string r.description),
   ("properties", .object (r.fields.map fun f => (f.name, f.json))),
   ("required", .array ((r.fields.filter Field.required).map fun f => .string f.name)),
   ("title", .string r.title),
   ("type", .string "object")]

/-! ## The documents -/

def ruleRecord : Record where
  title := "ChangeDocument"
  description := "One link of a rule; \x60\x60next\x60\x60 nests the following link."
  fields :=
    [⟨"input", .list (.either (.text none) .freeObject) (some 1), some "Input",
      some "Literal piece names and/or predicate objects", none, true⟩,
     ⟨"guard", .orNull .any, some "Guard",
      some "Boolean condition; absent means always true", some .null, false⟩,
     ⟨"result", .orNull (.list .any none), some "Result",
      some "One replacement expression per input slot; absent clears every slot",
      some .null, false⟩,
     ⟨"next", .orNull (.defined "ChangeDocument"), none, none, some .null, false⟩]

def gameRecord : Record where
  title := "GameDocument"
  description := "A complete game definition: registry contents, rules and deal parameters."
  fields :=
    [⟨"id", .text (some 1), some "Id", some "Namespace for bare piece names", none, true⟩,
     ⟨"nodes", .list (.text none) (some 1), some "Nodes", none, none, true⟩,
     ⟨"tags", .table (.list (.text none) none), some "Tags", none, none, false⟩,
     ⟨"mappings", .table (.table (.text none)), some "Mappings", none, none, false⟩,
     ⟨"select", .any, some "Select", some "Condition a cell must satisfy to be selectable",
      some (.bool true), false⟩,
     ⟨"changes", .list (.defined "ChangeDocument") none, some "Changes", none, none, false⟩,
     ⟨"radius", .integer (some 0), some "Radius", none, some (number 5), false⟩,
     ⟨"center", .orNull (.text none), some "Center", none, some .null, false⟩,
     ⟨"bank", .table (.integer (some 0)), some "Bank", none, none, false⟩]

/-- The shapes that are defined by name. -/
def definitions : String × Json :=
  ("$defs", .object [(ruleRecord.title, .object ruleRecord.members)])

/-- The schema of rule documents, which nest. -/
def rule : Json := .object (definitions :: (Shape.defined ruleRecord.title).members)

/-- The schema of game documents. -/
def game : Json := .object (definitions :: gameRecord.members)

end HexRules.Schema
