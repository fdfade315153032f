import HexRules.Document.Rule

/-!
# Game documents

A game as it is written: its pieces, tags and mappings, when a cell can be selected, its rules, and
how its board is dealt.  `GameDocument.check` types a JSON value or lists all its problems; the id
must not hold a separator and the names must differ, but these two are looked at only when nothing
else is wrong.
-/

namespace HexRules

structure GameDocument where
  id : String
  nodes : List String
  tags : List (String × List String)
  mappings : List (String × List (String × String))
  select : Json
  rules : List RuleDocument
  radius : Nat
  center : Option String
  bank : List (String × Nat)

namespace GameDocument

/-- Radius of a game that names none. -/
def defaultRadius : Nat := 5

def fields : List String :=
  ["id", "nodes", "tags", "mappings", "select", "changes", "radius", "center", "bank"]

/-- The fields of a game, one by one. -/
def checkFields (members : List (String × Json)) : Checked GameDocument :=
  let id := Check.required Check.nonemptyText [] members "id"
  let nodes := Check.required (Check.nonemptyList Check.text) [] members "nodes"
  let tags := Check.optional (Check.table (Check.list Check.text)) [] [] members "tags"
  let mappings := Check.optional (Check.table (Check.table Check.text)) [] [] members "mappings"
  let select := Check.optional (fun _ j => .ok j) (.bool true) [] members "select"
  let rules := Check.optional (Check.list (RuleDocument.checkAt 1)) [] [] members "changes"
  let radius := Check.optional Check.count defaultRadius [] members "radius"
  let center := Check.optional Check.optionalText none [] members "center"
  let bank := Check.optional (Check.table Check.count) [] [] members "bank"
  let known := Check.onlyFields fields [] members
  let names := Checked.both id nodes
  let tables := Checked.both tags mappings
  let conditions := Checked.both select rules
  let deal := Checked.both radius (Checked.both center bank)
  let all := Checked.both (Checked.both names tables) (Checked.both conditions (Checked.both deal known))
  all.map fun ((names, tables), conditions, deal, _) =>
    { id := names.1
      nodes := names.2
      tags := tables.1
      mappings := tables.2
      select := conditions.1
      rules := conditions.2
      radius := deal.1
      center := deal.2.1
      bank := deal.2.2 }

/-- The rules that a document with sound fields must keep; the first one that is broken counts. -/
def checkNames (d : GameDocument) : Checked GameDocument :=
  if ':' ∈ d.id.toList then .fail [] (.broken "game id must not contain ':'")
  else if !decide d.nodes.Nodup then .fail [] (.broken "node names must be unique")
  else .ok d

def check : Json → Checked GameDocument
  | .object members =>
    match checkFields members with
    | .ok d => d.checkNames
    | .error problems => .error problems
  | _ => .fail [] .notObject

/-! ## Writing -/

def textsJson (texts : List String) : Json := .array (texts.map .string)

def tableJson (entries : List (String × String)) : Json :=
  .object (entries.map fun e => (e.1, .string e.2))

/-- The game with every field filled in. -/
def toJson (d : GameDocument) : Json := .object
  [("id", .string d.id),
   ("nodes", textsJson d.nodes),
   ("tags", .object (d.tags.map fun e => (e.1, textsJson e.2))),
   ("mappings", .object (d.mappings.map fun e => (e.1, tableJson e.2))),
   ("select", d.select),
   ("changes", .array (d.rules.map RuleDocument.toJson)),
   ("radius", .number (.int d.radius)),
   ("center", match d.center with
     | some name => .string name
     | none => .null),
   ("bank", .object (d.bank.map fun e => (e.1, .number (.int e.2))))]

end GameDocument

end HexRules
