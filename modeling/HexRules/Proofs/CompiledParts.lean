import HexRules.Eval.Compile
import HexRules.Proofs.Computations

/-!
# What is compiled from parts

An array is compiled from its items, and an object from some of its members.  So a property that
every form of expression takes over from its parts, and every value from the parts of it, holds of
all that is compiled.

    P is taken over, and holds of what the members are compiled to →
      Yields P (ofFunction g parts type function)                        (Inherited.yields_ofFunction)
    M is taken over → Yields (M j) (ofJson g functions expand j)         (Compositional.yields_ofJson)
-/

namespace HexRules

namespace Expression

/-- Every form of expression takes the property over from its parts. -/
structure Inherited (g : Game) (P : Expression → Prop) : Prop where
  array_iff : ∀ es, P (.array es) ↔ ∀ e ∈ es, P e
  branch : ∀ cond whenTrue whenFalse, P cond → P whenTrue → P whenFalse →
    P (.branch cond whenTrue whenFalse)
  all : ∀ es, (∀ e ∈ es, P e) → P (.all es)
  any : ∀ es, (∀ e ∈ es, P e) → P (.any es)
  equal : ∀ es, (∀ e ∈ es, P e) → P (.equal es)
  openRun : ∀ e, P e → P (.openRun e)
  lookup : ∀ name table e, g.catalog.mapping name = .ok table → P e → P (.lookup table e)
  onBoard : ∀ e, P e → P (.onBoard e)

variable {g : Game} {functions : Registry FunctionBuilder}
  {expand : Identifier → Json → Except CompileError Expression}

namespace Inherited

variable {P : Expression → Prop} {parts : List (String × Part)}

section Members

variable (hparts : ∀ part ∈ parts, Yields P (part.2.compiled ()))

include hparts

theorem yields_required (key : String) : Yields P (required parts key) := by
  unfold required
  split
  · rename_i part hpart
    exact hparts _ (mem_of_findEntry hpart)
  · trivial

theorem yields_operands (hP : Inherited g P) (type : String) :
    Yields (fun es => ∀ e ∈ es, P e) (operands parts type) := by
  unfold operands
  split
  · trivial
  · rename_i part hpart
    split
    · trivial
    · refine (hparts _ (mem_of_findEntry hpart)).bind fun e he => ?_
      split
      · exact (hP.array_iff _).1 he
      · trivial
    · trivial

theorem yields_ofFunction (hP : Inherited g P) (type : String) (function : Function) :
    Yields P (ofFunction g parts type function) := by
  have hvalue := yields_required hparts "value"
  have hoperands := yields_operands hparts hP type
  cases function with
  | branch =>
    refine (yields_required hparts "cond").bind fun cond hcond => ?_
    refine (yields_required hparts "then").bind fun whenTrue htrue => ?_
    refine (yields_required hparts "else").bind fun whenFalse hfalse => ?_
    exact hP.branch cond whenTrue whenFalse hcond htrue hfalse
  | all => exact hoperands.bind hP.all
  | any => exact hoperands.bind hP.any
  | equal => exact hoperands.bind hP.equal
  | openRun => exact hvalue.bind hP.openRun
  | lookup =>
    have htable : Yields (fun table => ∃ name, g.catalog.mapping name = .ok table)
        (lookupTable g parts) := by
      unfold lookupTable
      split
      · exact Yields.of_forall fun table htable => ⟨_, htable⟩
      · trivial
      · trivial
    exact htable.bind fun table ⟨name, ht⟩ => hvalue.bind fun e he => hP.lookup name table e ht he
  | onBoard => exact hvalue.bind hP.onBoard

theorem yields_ofObject (hP : Inherited g P)
    (hexpand : ∀ i j, functions.get i = .ok (.alias j) → Yields P (expand i j)) :
    Yields P (ofObject g functions expand parts) := by
  unfold ofObject
  split
  · trivial
  · split
    · rename_i type _
      refine (yields_true _).bind fun i _ => ?_
      have hbuilder : Yields (fun b => functions.get i = .ok b) (functions.get i) :=
        Yields.of_forall fun _ h => h
      refine hbuilder.bind fun builder hget => ?_
      rcases builder with function | e
      · exact yields_ofFunction hparts hP type function
      · exact hexpand i e hget
    · trivial

end Members

end Inherited

/-- A property of values and of the expressions that they are compiled to, which every value takes
over from the parts of it. -/
structure Compositional (g : Game) (M : Json → Expression → Prop) : Prop where
  null : M .null (.const .empty)
  bool : ∀ b, M (.bool b) (.const (.bool b))
  number : ∀ n, M (.number n) (.const (.number n))
  text : ∀ text, Yields (M (.string text)) (ofText g text)
  item : ∀ items, ∀ j ∈ items, ∀ e, M j e → M (.array items) e
  member : ∀ members, ∀ x ∈ members, ∀ e, M x.2 e → M (.object members) e
  inherited : ∀ j, Inherited g (M j)

/-- The induction is on the value: its members are compiled as it is itself. -/
theorem Compositional.yields_ofJson {M : Json → Expression → Prop} (hM : Compositional g M)
    (hexpand : ∀ i x, functions.get i = .ok (.alias x) → ∀ j, Yields (M j) (expand i x))
    (j : Json) : Yields (M j) (ofJson g functions expand j) := by
  induction j using Json.induction with
  | null => exact hM.null
  | bool b => exact hM.bool b
  | number n => exact hM.number n
  | string text => exact hM.text text
  | array items ih =>
    rw [ofJson, ofItems_eq_mapM]
    have hitems : ∀ j ∈ items, Yields (M (.array items)) (ofJson g functions expand j) :=
      fun j hj => (ih j hj).imp (hM.item items j hj) fun _ h => h
    exact (Ends.mapM hitems).bind fun es hes => ((hM.inherited _).array_iff es).2 hes
  | object members ih =>
    rw [ofJson, ofMembers_eq_map]
    refine (hM.inherited _).yields_ofObject (fun part hpart => ?_)
      fun i x hget => hexpand i x hget (.object members)
    obtain ⟨x, hx, rfl⟩ := List.mem_map.1 hpart
    exact (ih x hx).imp (hM.member members x hx) fun _ h => h

end Expression

end HexRules
