import HexRules.Eval.Expression
import HexRules.Registry

/-!
# Compiling expressions

Constants stand for themselves, `"@name"` for a bound name, any other text for a piece of the
game, an array for the array of its items, and an object for the function that its `type`
names; members that the function does not ask for are not compiled.  Functions can be added to the
registry as aliases of expressions; an alias is compiled where it is used.
-/

namespace HexRules

/-- The functions that come with the library. -/
inductive Function
  | branch
  | all
  | any
  | equal
  | openRun
  | lookup
  | onBoard
  deriving DecidableEq, Repr

/-- What an object of a registered type is compiled to. -/
inductive FunctionBuilder
  | builtin (function : Function)
  /-- The expression that the object stands for, whatever its other members. -/
  | alias (expression : Json)

def builtinFunctions : Registry FunctionBuilder :=
  Registry.ofBuiltins "condition"
    [("if", .builtin .branch), ("and", .builtin .all), ("or", .builtin .any),
     ("equals", .builtin .equal), ("contiguous-neighbors", .builtin .openRun),
     ("lookup", .builtin .lookup), ("board-contains", .builtin .onBoard)]

namespace Expression

/-- The mark before a bound name. -/
def nameMark : Char := '@'

/-- A member of an object: what is written, and what it compiles to once that is asked for. -/
structure Part where
  written : Json
  compiled : Unit → Except CompileError Expression

def ofText (game : Game) (text : String) : Except CompileError Expression :=
  match text.toList with
  | '@' :: rest => .ok (.binding (String.ofList rest))
  | _ => do
    let p ← game.catalog.resolve text
    .ok (.const (.piece (some p)))

/-- What a member that must be there compiles to. -/
def required (parts : List (String × Part)) (key : String) : Except CompileError Expression :=
  match findEntry key parts with
  | some part => part.compiled ()
  | none => .error (.missingKey key)

/-- The operands in the `values` array of an object. -/
def operands (parts : List (String × Part)) (type : String) :
    Except CompileError (List Expression) :=
  match findEntry "values" parts with
  | none => .error (.needsValues type)
  | some part =>
    match part.written with
    | .null => .error (.needsValues type)
    | .array _ => do
      match ← part.compiled () with
      | .array items => .ok items
      | _ => .error .valuesNotArray
    | _ => .error .valuesNotArray

/-- The mapping that a look-up names. -/
def lookupTable (game : Game) (parts : List (String × Part)) :
    Except CompileError (Table Piece Piece) :=
  match findEntry "mapping" parts with
  | some ⟨.string name, _⟩ => game.catalog.mapping name
  | some part => .error (.mappingNotText part.written)
  | none => .error (.mappingNotText .null)

/-- The call of a built-in function, its members checked in a fixed order. -/
def ofFunction (game : Game) (parts : List (String × Part)) (type : String) :
    Function → Except CompileError Expression
  | .branch => do
    let cond ← required parts "cond"
    let whenTrue ← required parts "then"
    let whenFalse ← required parts "else"
    .ok (.branch cond whenTrue whenFalse)
  | .all => do
    let es ← operands parts type
    .ok (.all es)
  | .any => do
    let es ← operands parts type
    .ok (.any es)
  | .equal => do
    let es ← operands parts type
    .ok (.equal es)
  | .openRun => do
    let e ← required parts "value"
    .ok (.openRun e)
  | .lookup => do
    let table ← lookupTable game parts
    let e ← required parts "value"
    .ok (.lookup table e)
  | .onBoard => do
    let e ← required parts "value"
    .ok (.onBoard e)

/-- An object, by the function that its type names. -/
def ofObject (game : Game) (functions : Registry FunctionBuilder)
    (expand : Identifier → Json → Except CompileError Expression) (parts : List (String × Part)) :
    Except CompileError Expression :=
  match findEntry "type" parts with
  | none => .error .missingType
  | some part =>
    match part.written with
    | .string type => do
      let i ← functions.identify type
      match ← functions.get i with
      | .builtin function => ofFunction game parts type function
      | .alias e => expand i e
    | written => .error (.typeNotText written)

mutual

/-- Compile a value, where `expand` compiles what an alias stands for. -/
def ofJson (game : Game) (functions : Registry FunctionBuilder)
    (expand : Identifier → Json → Except CompileError Expression) :
    Json → Except CompileError Expression
  | .null => .ok (.const .empty)
  | .bool b => .ok (.const (.bool b))
  | .number n => .ok (.const (.number n))
  | .string text => ofText game text
  | .array items => do
    let es ← ofItems game functions expand items
    .ok (.array es)
  | .object members => ofObject game functions expand (ofMembers game functions expand members)

def ofItems (game : Game) (functions : Registry FunctionBuilder)
    (expand : Identifier → Json → Except CompileError Expression) :
    List Json → Except CompileError (List Expression)
  | [] => .ok []
  | j :: rest => do
    let e ← ofJson game functions expand j
    let es ← ofItems game functions expand rest
    .ok (e :: es)

def ofMembers (game : Game) (functions : Registry FunctionBuilder)
    (expand : Identifier → Json → Except CompileError Expression) :
    List (String × Json) → List (String × Part)
  | [] => []
  | (key, j) :: rest =>
    (key, ⟨j, fun _ => ofJson game functions expand j⟩) ::
      ofMembers game functions expand rest

end

/-- Compile with aliases nested at most `depth` deep. -/
def compileTo (game : Game) (functions : Registry FunctionBuilder) :
    Nat → Json → Except CompileError Expression
  | 0, j => ofJson game functions (fun i _ => .error (.circular i)) j
  | depth + 1, j => ofJson game functions (fun _ e => compileTo game functions depth e) j

/-- Compile a value.  Aliases that are not circular nest at most as deep as there are functions. -/
def compile (game : Game) (functions : Registry FunctionBuilder) (j : Json) :
    Except CompileError Expression :=
  compileTo game functions functions.size j

/-! ## Lemmas -/

theorem ofItems_eq_mapM (game : Game) (functions : Registry FunctionBuilder)
    (expand : Identifier → Json → Except CompileError Expression) (items : List Json) :
    ofItems game functions expand items = items.mapM (ofJson game functions expand) := by
  induction items with
  | nil => rfl
  | cons j rest ih =>
    rw [ofItems, ih, List.mapM_cons]
    rfl

theorem ofMembers_eq_map (game : Game) (functions : Registry FunctionBuilder)
    (expand : Identifier → Json → Except CompileError Expression)
    (members : List (String × Json)) :
    ofMembers game functions expand members =
      members.map fun e => (e.1, ⟨e.2, fun _ => ofJson game functions expand e.2⟩) := by
  induction members with
  | nil => rfl
  | cons e rest ih => rw [ofMembers, ih, List.map_cons]

end Expression

end HexRules
