import HexRules.Document.Rule
import HexRules.Eval.Compile
import HexRules.Rules.RuleSet

/-!
# Compiling rules

A pattern of names only becomes a literal matcher; one with predicate objects becomes a search,
its names turned into predicates for one piece.  A link is compiled in the order inputs, guard,
results; the links of a chain one after the other.
-/

namespace HexRules

/-- The predicates that come with the library. -/
inductive PredicateKind
  | member
  | key
  deriving DecidableEq, Repr

def builtinPredicates : Registry PredicateKind :=
  Registry.ofBuiltins "predicate" [("mapping-key", .member), ("tag", .key)]

/-- What is at hand while a document is compiled: the game, whose names are looked up, with its
board, and the functions and predicates that types are looked up in. -/
structure Compiler where
  game : Game
  functions : Registry FunctionBuilder
  predicates : Registry PredicateKind

namespace Compiler

/-- The compiler with the functions and predicates that come with the library. -/
def standard (game : Game) : Compiler := ⟨game, builtinFunctions, builtinPredicates⟩

def expression (k : Compiler) (j : Json) : Except CompileError Expression :=
  Expression.compile k.game k.functions j

/-! ## Predicates -/

/-- A member that is a text, or missing or null. -/
def textField? (members : List (String × Json)) (key : String) :
    Except CompileError (Option String) :=
  match findEntry key members with
  | none => .ok none
  | some .null => .ok none
  | some (.string s) => .ok (some s)
  | some j => .error (.fieldNotText key j)

/-- A member that must be a text. -/
def textField (members : List (String × Json)) (type key : String) :
    Except CompileError String := do
  match ← textField? members key with
  | some s => .ok s
  | none => .error (.needsField type key)

def ofKind (k : Compiler) (members : List (String × Json)) (type : String) :
    PredicateKind → Except CompileError Predicate
  | .member => do
    let tag ← textField members type "tag"
    let pieces ← k.game.catalog.tag tag
    let bind ← textField? members "bind"
    .ok (.member pieces bind)
  | .key => do
    let name ← textField members type "mapping"
    let table ← k.game.catalog.mapping name
    let bindKey ← textField? members "bind-key"
    let bindValue ← textField? members "bind-val"
    .ok (.key table bindKey bindValue)

/-- A predicate, by the kind that its type names. -/
def predicate (k : Compiler) (members : List (String × Json)) : Except CompileError Predicate :=
  match findEntry "type" members with
  | some (.string type) => do
    let kind ← k.predicates.resolve type
    k.ofKind members type kind
  | some j => .error (.inputType j)
  | none => .error (.inputType .null)

/-! ## Patterns -/

/-- The names of a pattern that consists of names only. -/
def names? : List InputItem → Option (List String)
  | [] => some []
  | .piece name :: rest => (names? rest).map (name :: ·)
  | .object _ :: _ => none

/-- A slot of a pattern that is searched. -/
def slot (k : Compiler) : InputItem → Except CompileError Predicate
  | .piece name => do
    let p ← k.game.catalog.resolve name
    .ok (.literal p)
  | .object members => k.predicate members

def matcher (k : Compiler) (input : List InputItem) : Except CompileError Matcher :=
  match names? input with
  | some names => do
    let pieces ← names.mapM k.game.catalog.resolve
    .ok (.literal pieces)
  | none => do
    let tests ← input.mapM k.slot
    .ok (.search tests)

/-! ## Rules -/

def guard (k : Compiler) : Option Json → Except CompileError (Option Expression)
  | none => .ok none
  | some j => do
    let e ← k.expression j
    .ok (some e)

/-- The results of a link; a link without results clears every slot. -/
def results (k : Compiler) (d : LinkDocument) : Except CompileError (List Expression) :=
  match d.result with
  | none => .ok (List.replicate d.input.length (.const .empty))
  | some items =>
    if items.length = d.input.length then items.mapM k.expression
    else .error (.resultCount d.input.length items.length)

def link (k : Compiler) (d : LinkDocument) : Except CompileError Link := do
  let matcher ← k.matcher d.input
  let guard ← k.guard d.guard
  let results ← k.results d
  Link.build matcher guard results

def rule (k : Compiler) (d : RuleDocument) : Except CompileError Chain := do
  let first ← k.link d.first
  let next ← d.next.mapM k.link
  .ok ⟨first, next⟩

/-- Check a rule and compile it. -/
def ruleOfJson (k : Compiler) (j : Json) : Except CompileError Chain :=
  match RuleDocument.check j with
  | .ok d => k.rule d
  | .error problems => .error (.invalid .rule problems)

def ruleSet (k : Compiler) (ds : List RuleDocument) : Except CompileError RuleSet := do
  let rules ← ds.mapM k.rule
  .ok ⟨rules⟩

end Compiler

end HexRules
