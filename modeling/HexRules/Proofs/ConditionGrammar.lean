import HexRules.Eval.Compile
import HexRules.Proofs.Computations
import HexRules.Proofs.WrittenNames

/-!
# The grammar of conditions

Which JSON values are compiled, with the functions of the library, can be said without compiling
them.  `IsCondition c j` is that grammar over the names of a catalog: its rules for objects say which
members a function asks for, and every other member of an object may be anything.

    Succeeds (ofFunction g …) ↔ CallForm g.catalog (fun j => Succeeds (ofJson g … j)) members function
                                                                         (succeeds_ofFunction_iff)
    IsCondition c (.object members) ↔
      ∃ function, HasType members function.name ∧ CallForm c (IsCondition c) members function
                                                                         (isCondition_object_iff)
    Succeeds (compile g builtinFunctions j) ↔ IsCondition g.catalog j    (succeeds_compile_iff)
-/

namespace HexRules

/-! ## Types of objects -/

/-- The type of an object names what the library calls `name`. -/
def HasType (members : List (String × Json)) (name : String) : Prop :=
  ∃ type, findEntry "type" members = some (.string type) ∧
    Identifier.Written Registry.builtinSpace type ⟨Registry.builtinSpace, name⟩

namespace Function

def name : Function → String
  | branch => "if"
  | all => "and"
  | any => "or"
  | equal => "equals"
  | openRun => "contiguous-neighbors"
  | lookup => "lookup"
  | onBoard => "board-contains"

theorem get?_builtinFunctions (i : Identifier) (b : FunctionBuilder) :
    builtinFunctions.builders.get? i = some b ↔
      ∃ function : Function, i = ⟨Registry.builtinSpace, function.name⟩ ∧
        b = .builtin function := by
  rw [builtinFunctions, Registry.get?_ofBuiltins (by decide)]
  constructor
  · rintro ⟨name, rfl, hmem⟩
    simp only [List.mem_cons, List.not_mem_nil, or_false, Prod.mk.injEq] at hmem
    rcases hmem with ⟨rfl, rfl⟩ | ⟨rfl, rfl⟩ | ⟨rfl, rfl⟩ | ⟨rfl, rfl⟩ | ⟨rfl, rfl⟩ | ⟨rfl, rfl⟩ |
      ⟨rfl, rfl⟩
    exacts [⟨.branch, rfl, rfl⟩, ⟨.all, rfl, rfl⟩, ⟨.any, rfl, rfl⟩, ⟨.equal, rfl, rfl⟩,
      ⟨.openRun, rfl, rfl⟩, ⟨.lookup, rfl, rfl⟩, ⟨.onBoard, rfl, rfl⟩]
  · rintro ⟨function, rfl, rfl⟩
    refine ⟨function.name, rfl, ?_⟩
    cases function <;> simp [name]

end Function

/-! ## The grammar -/

/-- A value that is read as a condition. -/
inductive IsCondition (c : Catalog) : Json → Prop
  | null : IsCondition c .null
  | bool (b : Bool) : IsCondition c (.bool b)
  | number (n : Number) : IsCondition c (.number n)
  /-- A bound name. -/
  | bound {text : String} {name : List Char} (htext : text.toList = Expression.nameMark :: name) :
    IsCondition c (.string text)
  | piece {text : String} {p : Piece} (hname : Identifier.Written c.id text p)
      (hp : p ∈ c.pieces) : IsCondition c (.string text)
  | array {items : List Json} (hitems : ∀ j ∈ items, IsCondition c j) : IsCondition c (.array items)
  | branch {members : List (String × Json)} {cond whenTrue whenFalse : Json}
      (htype : HasType members "if") (hcond : findEntry "cond" members = some cond)
      (htrue : findEntry "then" members = some whenTrue)
      (hfalse : findEntry "else" members = some whenFalse) (isCond : IsCondition c cond)
      (isTrue : IsCondition c whenTrue) (isFalse : IsCondition c whenFalse) :
    IsCondition c (.object members)
  | fold {members : List (String × Json)} {name : String} {items : List Json}
      (hname : name ∈ ["and", "or", "equals"]) (htype : HasType members name)
      (hvalues : findEntry "values" members = some (.array items))
      (hitems : ∀ j ∈ items, IsCondition c j) : IsCondition c (.object members)
  | unary {members : List (String × Json)} {name : String} {value : Json}
      (hname : name ∈ ["contiguous-neighbors", "board-contains"]) (htype : HasType members name)
      (hvalue : findEntry "value" members = some value) (isValue : IsCondition c value) :
    IsCondition c (.object members)
  | lookup {members : List (String × Json)} {name : String} {table : Table Piece Piece}
      {value : Json} (htype : HasType members "lookup")
      (hmapping : findEntry "mapping" members = some (.string name))
      (htable : c.mappings.get? name = some table)
      (hvalue : findEntry "value" members = some value) (isValue : IsCondition c value) :
    IsCondition c (.object members)

/-! ## Calls -/

/-- A member that is there and accepted. -/
def HasMember (accepted : Json → Prop) (members : List (String × Json)) (key : String) : Prop :=
  ∃ j, findEntry key members = some j ∧ accepted j

/-- A member that is there and names an entry of a table. -/
def NamesEntry {α : Type} (table : Table String α) (members : List (String × Json))
    (key : String) : Prop :=
  ∃ name entry, findEntry key members = some (.string name) ∧ table.get? name = some entry

/-- The members that a function asks for are there and accepted. -/
def CallForm (c : Catalog) (accepted : Json → Prop) (members : List (String × Json)) :
    Function → Prop
  | .branch => HasMember accepted members "cond" ∧ HasMember accepted members "then" ∧
    HasMember accepted members "else"
  | .all | .any | .equal => ∃ items, findEntry "values" members = some (.array items) ∧
    accepted (.array items)
  | .lookup => NamesEntry c.mappings members "mapping" ∧ HasMember accepted members "value"
  | .openRun | .onBoard => HasMember accepted members "value"

theorem HasMember.congr {accepted accepted' : Json → Prop} {members : List (String × Json)}
    (h : ∀ e ∈ members, accepted e.2 ↔ accepted' e.2) (key : String) :
    HasMember accepted members key ↔ HasMember accepted' members key := by
  refine exists_congr fun j => and_congr_right fun hj => ?_
  exact h (key, j) (mem_of_findEntry hj)

/-- A function asks for members of its object only. -/
theorem CallForm.congr {c : Catalog} {accepted accepted' : Json → Prop}
    {members : List (String × Json)} (h : ∀ e ∈ members, accepted e.2 ↔ accepted' e.2)
    (function : Function) :
    CallForm c accepted members function ↔ CallForm c accepted' members function := by
  have hvalues : (∃ items, findEntry "values" members = some (.array items) ∧
      accepted (.array items)) ↔
        ∃ items, findEntry "values" members = some (.array items) ∧ accepted' (.array items) := by
    refine exists_congr fun items => and_congr_right fun hitems => ?_
    exact h ("values", .array items) (mem_of_findEntry hitems)
  have hvalue := HasMember.congr h "value"
  cases function with
  | branch =>
    exact and_congr (HasMember.congr h "cond")
      (and_congr (HasMember.congr h "then") (HasMember.congr h "else"))
  | all => exact hvalues
  | any => exact hvalues
  | equal => exact hvalues
  | openRun => exact hvalue
  | lookup => exact and_congr_right fun _ => hvalue
  | onBoard => exact hvalue

theorem isCondition_array_iff {c : Catalog} {items : List Json} :
    IsCondition c (.array items) ↔ ∀ j ∈ items, IsCondition c j := by
  constructor
  · intro h
    cases h with
    | array hitems => exact hitems
  · exact .array

theorem isCondition_object_iff {c : Catalog} {members : List (String × Json)} :
    IsCondition c (.object members) ↔
      ∃ function : Function, HasType members function.name ∧
        CallForm c (IsCondition c) members function := by
  constructor
  · intro h
    cases h with
    | branch htype hcond htrue hfalse isCond isTrue isFalse =>
      exact ⟨.branch, htype, ⟨_, hcond, isCond⟩, ⟨_, htrue, isTrue⟩, ⟨_, hfalse, isFalse⟩⟩
    | fold hname htype hvalues hitems =>
      have hform : ∃ items, findEntry "values" members = some (.array items) ∧
          IsCondition c (.array items) := ⟨_, hvalues, .array hitems⟩
      simp only [List.mem_cons, List.not_mem_nil, or_false] at hname
      rcases hname with rfl | rfl | rfl
      exacts [⟨.all, htype, hform⟩, ⟨.any, htype, hform⟩, ⟨.equal, htype, hform⟩]
    | unary hname htype hvalue isValue =>
      simp only [List.mem_cons, List.not_mem_nil, or_false] at hname
      rcases hname with rfl | rfl
      exacts [⟨.openRun, htype, _, hvalue, isValue⟩, ⟨.onBoard, htype, _, hvalue, isValue⟩]
    | lookup htype hmapping htable hvalue isValue =>
      exact ⟨.lookup, htype, ⟨_, _, hmapping, htable⟩, _, hvalue, isValue⟩
  · rintro ⟨function, htype, hform⟩
    cases function with
    | branch =>
      obtain ⟨⟨cond, hcond, isCond⟩, ⟨whenTrue, htrue, isTrue⟩, ⟨whenFalse, hfalse, isFalse⟩⟩ :=
        hform
      exact .branch htype hcond htrue hfalse isCond isTrue isFalse
    | all =>
      obtain ⟨items, hvalues, isArray⟩ := hform
      exact .fold (by decide) htype hvalues (isCondition_array_iff.1 isArray)
    | any =>
      obtain ⟨items, hvalues, isArray⟩ := hform
      exact .fold (by decide) htype hvalues (isCondition_array_iff.1 isArray)
    | equal =>
      obtain ⟨items, hvalues, isArray⟩ := hform
      exact .fold (by decide) htype hvalues (isCondition_array_iff.1 isArray)
    | openRun =>
      obtain ⟨value, hvalue, isValue⟩ := hform
      exact .unary (by decide) htype hvalue isValue
    | lookup =>
      obtain ⟨⟨name, table, hmapping, htable⟩, value, hvalue, isValue⟩ := hform
      exact .lookup htype hmapping htable hvalue isValue
    | onBoard =>
      obtain ⟨value, hvalue, isValue⟩ := hform
      exact .unary (by decide) htype hvalue isValue

/-! ## Compiling -/

theorem Catalog.succeeds_mapping_iff (c : Catalog) (name : String) :
    Succeeds (c.mapping name) ↔ ∃ table, c.mappings.get? name = some table := by
  unfold mapping
  cases c.mappings.get? name with
  | none => simp
  | some table => simp

namespace Expression

open Succeeds

variable {g : Game} {functions : Registry FunctionBuilder}
  {expand : Identifier → Json → Except CompileError Expression} {members : List (String × Json)}

/-- The value is compiled to an expression. -/
abbrev Compiles (g : Game) (functions : Registry FunctionBuilder)
    (expand : Identifier → Json → Except CompileError Expression) (j : Json) : Prop :=
  Succeeds (ofJson g functions expand j)

theorem findEntry_ofMembers (key : String) :
    findEntry key (ofMembers g functions expand members) =
      (findEntry key members).map fun j => ⟨j, fun _ => ofJson g functions expand j⟩ := by
  rw [ofMembers_eq_map]
  exact findEntry_map (fun j => (⟨j, fun _ => ofJson g functions expand j⟩ : Part)) key members

theorem compiles_text_iff {text : String} :
    Compiles g functions expand (.string text) ↔ IsCondition g.catalog (.string text) := by
  unfold Compiles
  rw [ofJson, ofText]
  split
  · rename_i name htext
    exact ⟨fun _ => .bound htext, fun _ => of_ok _⟩
  · rename_i hunbound
    rw [bind_iff_of_forall fun p => of_ok _]
    constructor
    · rintro ⟨p, hp⟩
      obtain ⟨hname, hmem⟩ := (g.catalog.resolve_eq_ok_iff text p).1 hp
      exact .piece hname hmem
    · intro h
      cases h with
      | bound htext => exact absurd htext (hunbound _)
      | piece hname hmem => exact ⟨_, (g.catalog.resolve_eq_ok_iff text _).2 ⟨hname, hmem⟩⟩

theorem compiles_array_iff {items : List Json} :
    Compiles g functions expand (.array items) ↔
      ∀ j ∈ items, Compiles g functions expand j := by
  unfold Compiles
  rw [ofJson, ofItems_eq_mapM, bind_iff_of_forall fun es => of_ok _, mapM_iff]

theorem succeeds_required_iff (key : String) :
    Succeeds (required (ofMembers g functions expand members) key) ↔
      HasMember (Compiles g functions expand) members key := by
  unfold required HasMember
  rw [findEntry_ofMembers]
  cases findEntry key members with
  | none => simp
  | some j => simp

theorem succeeds_operands_iff (type : String) :
    Succeeds (operands (ofMembers g functions expand members) type) ↔
      ∃ items, findEntry "values" members = some (.array items) ∧
        Compiles g functions expand (.array items) := by
  unfold operands
  rw [findEntry_ofMembers]
  cases findEntry "values" members with
  | none => simp
  | some j =>
    cases j with
    | array items =>
      simp only [Option.map_some, Option.some.injEq, Json.array.injEq, exists_eq_left']
      -- An array is compiled to an array, so asking for one refuses nothing.
      unfold Compiles
      rw [ofJson]
      cases ofItems g functions expand items with
      | error e => exact iff_of_false (not_error e) (not_error e)
      | ok es => exact iff_of_true ⟨es, rfl⟩ ⟨.array es, rfl⟩
    | _ => simp

theorem succeeds_lookupTable_iff :
    Succeeds (lookupTable g (ofMembers g functions expand members)) ↔
      NamesEntry g.catalog.mappings members "mapping" := by
  unfold lookupTable NamesEntry
  rw [findEntry_ofMembers]
  cases findEntry "mapping" members with
  | none => simp
  | some j =>
    cases j with
    | string name =>
      simp [Catalog.succeeds_mapping_iff]
    | _ => simp

theorem succeeds_ofFunction_iff (type : String) (function : Function) :
    Succeeds (ofFunction g (ofMembers g functions expand members) type function) ↔
      CallForm g.catalog (Compiles g functions expand) members function := by
  cases function with
  | branch =>
    refine (bind_iff_and fun cond => bind_iff_and fun whenTrue =>
      bind_iff_of_forall fun whenFalse => of_ok _).trans ?_
    rw [succeeds_required_iff, succeeds_required_iff, succeeds_required_iff]
    rfl
  | all => exact (bind_iff_of_forall fun es => of_ok _).trans (succeeds_operands_iff type)
  | any => exact (bind_iff_of_forall fun es => of_ok _).trans (succeeds_operands_iff type)
  | equal => exact (bind_iff_of_forall fun es => of_ok _).trans (succeeds_operands_iff type)
  | openRun => exact (bind_iff_of_forall fun e => of_ok _).trans (succeeds_required_iff "value")
  | lookup =>
    refine (bind_iff_and fun table => bind_iff_of_forall fun e => of_ok _).trans ?_
    rw [succeeds_lookupTable_iff, succeeds_required_iff]
    rfl
  | onBoard => exact (bind_iff_of_forall fun e => of_ok _).trans (succeeds_required_iff "value")

theorem compiles_object_iff :
    Compiles g builtinFunctions expand (.object members) ↔
      ∃ function : Function, HasType members function.name ∧
        CallForm g.catalog (Compiles g builtinFunctions expand) members function := by
  unfold Compiles HasType
  rw [ofJson, ofObject, findEntry_ofMembers]
  cases htype : findEntry "type" members with
  | none => simp
  | some j =>
    cases j with
    | string type =>
      simp only [Option.map_some]
      rw [bind_iff]
      constructor
      · rintro ⟨i, hi, h⟩
        obtain ⟨b, hb, h⟩ := bind_iff.1 h
        rw [Registry.get_eq_ok_iff, Function.get?_builtinFunctions] at hb
        obtain ⟨function, rfl, rfl⟩ := hb
        exact ⟨function, ⟨type, rfl, (Registry.identify_eq_ok_iff _ _ _).1 hi⟩,
          (succeeds_ofFunction_iff type function).1 h⟩
      · rintro ⟨function, ⟨type', heq, hwritten⟩, hform⟩
        cases heq
        refine ⟨_, (Registry.identify_eq_ok_iff _ _ _).2 hwritten, ?_⟩
        refine bind_iff.2 ⟨.builtin function, ?_, (succeeds_ofFunction_iff type function).2 hform⟩
        exact (Registry.get_eq_ok_iff _ _ _).2
          ((Function.get?_builtinFunctions _ _).2 ⟨function, rfl, rfl⟩)
    | _ => simp

/-- The induction is on the value; what an alias stands for does not matter, as no function of the
library is one. -/
theorem compiles_iff (j : Json) : Compiles g builtinFunctions expand j ↔ IsCondition g.catalog j := by
  induction j using Json.induction with
  | null => exact ⟨fun _ => .null, fun _ => of_ok _⟩
  | bool b => exact ⟨fun _ => .bool b, fun _ => of_ok _⟩
  | number n => exact ⟨fun _ => .number n, fun _ => of_ok _⟩
  | string text => exact compiles_text_iff
  | array items ih =>
    rw [compiles_array_iff, isCondition_array_iff]
    exact forall₂_congr ih
  | object members ih =>
    rw [compiles_object_iff, isCondition_object_iff]
    exact exists_congr fun function => and_congr_right fun _ => CallForm.congr ih function

theorem succeeds_compile_iff (j : Json) :
    Succeeds (compile g builtinFunctions j) ↔ IsCondition g.catalog j := by
  have hdepth : ∀ depth,
      Succeeds (compileTo g builtinFunctions depth j) ↔ IsCondition g.catalog j := by
    intro depth
    cases depth <;> exact compiles_iff j
  exact hdepth _

end Expression

end HexRules
