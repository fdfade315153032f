import HexRules.Document.Check

/-!
# Rule documents

A rule as it is written: a chain of links, each with its input slots, an optional guard and an
optional list of results.  A link is written inside the one before it, so a chain is as long as
documents may nest.  `RuleDocument.check` types a JSON value or lists all its problems;
`RuleDocument.toJson` writes a rule with every field filled in.
-/

namespace HexRules

/-- A slot of a pattern: a piece by name, or an object that describes a predicate. -/
inductive InputItem
  | piece (name : String)
  | object (members : List (String × Json))

structure LinkDocument where
  input : List InputItem
  guard : Option Json
  result : Option (List Json)

/-- One link or more. -/
structure RuleDocument where
  first : LinkDocument
  next : List LinkDocument

namespace LinkDocument

/-- A slot is a text or an object; anything else is wrong in both ways. -/
def checkItem (path : List String) : Json → Checked InputItem
  | .string name => .ok (.piece name)
  | .object members => .ok (.object members)
  | _ => .error [⟨path ++ ["str"], .notText⟩, ⟨path ++ ["dict[str,any]"], .notTable⟩]

/-- Any value; null is as good as none. -/
def checkAny (_ : List String) : Json → Checked (Option Json)
  | .null => .ok none
  | j => .ok (some j)

/-- A list of any values, or null for none. -/
def checkResult (path : List String) : Json → Checked (Option (List Json))
  | .null => .ok none
  | j => (Check.list (fun _ item => .ok item) path j).map some

def fields : List String := ["input", "guard", "result", "next"]

/-- The fields of one link; the following link is checked elsewhere. -/
def check (path : List String) (members : List (String × Json)) : Checked LinkDocument :=
  let input := Check.required (Check.nonemptyList checkItem) path members "input"
  let guard := Check.optional checkAny none path members "guard"
  let result := Check.optional checkResult none path members "result"
  let known := Check.onlyFields fields path members
  (Checked.both (Checked.both input guard) (Checked.both result known)).map fun parts =>
    ⟨parts.1.1, parts.1.2, parts.2.1⟩

end LinkDocument

namespace RuleDocument

def links (d : RuleDocument) : List LinkDocument := d.first :: d.next

mutual

/-- The links of a rule, the first of them at `path`; each is a document in the one before, and no
more than `room` of them are looked at. -/
def checkLinks (room : Nat) (path : List String) : Json → Checked (List LinkDocument)
  | .object members =>
    match room with
    | 0 => .fail path .tooDeep
    | room + 1 =>
      (Checked.both (LinkDocument.check path members) (checkNext room path members)).map fun pair =>
        pair.1 :: pair.2
  | _ => .fail path (if room = 0 then .tooDeep else .notObject)

/-- The links after one with the given members. -/
def checkNext (room : Nat) (path : List String) :
    List (String × Json) → Checked (List LinkDocument)
  | [] => .ok []
  | (key, j) :: rest =>
    if key = "next" then
      match j with
      | .null => .ok []
      | j => checkLinks room (path ++ ["next"]) j
    else checkNext room path rest

end

/-- The rule at a path inside `around` other documents. -/
def checkAt (around : Nat) (path : List String) (j : Json) : Checked RuleDocument :=
  match checkLinks (Check.maxNesting - around) path j with
  | .error problems => .error problems
  | .ok [] => .fail path .notObject
  | .ok (first :: next) => .ok ⟨first, next⟩

def check (j : Json) : Checked RuleDocument := checkAt 0 [] j

/-! ## Writing -/

def itemJson : InputItem → Json
  | .piece name => .string name
  | .object members => .object members

def linksJson : List LinkDocument → Json
  | [] => .null
  | d :: rest => .object
    [("input", .array (d.input.map itemJson)),
     ("guard", d.guard.getD .null),
     ("result", match d.result with
       | some items => .array items
       | none => .null),
     ("next", linksJson rest)]

/-- The rule with every field filled in. -/
def toJson (d : RuleDocument) : Json := linksJson d.links

end RuleDocument

end HexRules
