import HexRules.Eval.Expression
import HexRules.Proofs.Computations

/-!
# What an expression reads

An expression reads the scope through the names that occur in it, and the game through the
neighbours of its cell and through which pieces are on the board.  Where two contexts and scopes
agree on that, it has the same value or raises the same error.  They need not bind the same values to
the names: any relation that coercions and comparisons respect is carried through.

    R.Respected, the values of each name are related by R →
      Agree R (EvalError.Rel R) (e.eval ctx s) (e.eval ctx' t)           (eval_agree)
    (∀ n ∈ e.names, s.get? n = t.get? n) → e.eval ctx s = e.eval ctx' t  (eval_congr)
-/

namespace HexRules

namespace Expression

/-! ## Names -/

mutual

/-- The names that occur in an expression. -/
def names : Expression → List String
  | const _ => []
  | binding n => [n]
  | array items => namesOf items
  | branch cond whenTrue whenFalse => names cond ++ (names whenTrue ++ names whenFalse)
  | all operands => namesOf operands
  | any operands => namesOf operands
  | equal operands => namesOf operands
  | openRun length => names length
  | lookup _ key => names key
  | onBoard piece => names piece

def namesOf : List Expression → List String
  | [] => []
  | e :: rest => names e ++ namesOf rest

end

end Expression

/-! ## Contexts -/

theorem Game.onBoard_iff (g : Game) (p : Piece) : g.onBoard p = true ↔ p ∈ g.board.pieces := by
  simp [onBoard, Board.pieces]

/-- Contexts that every expression sees alike: the same neighbours are occupied, direction by
direction, and the same pieces are on the board. -/
structure Context.Alike (ctx ctx' : Context) : Prop where
  occupied : ctx.occupiedNeighbors = ctx'.occupiedNeighbors
  onBoard : ∀ p, ctx.game.onBoard p = ctx'.game.onBoard p

theorem Context.Alike.refl (ctx : Context) : ctx.Alike ctx := ⟨rfl, fun _ => rfl⟩

theorem Context.Alike.openRunLength_eq {ctx ctx' : Context} (h : ctx.Alike ctx') :
    ctx.openRunLength = ctx'.openRunLength := by
  rw [openRunLength, h.occupied]
  rfl

/-! ## Values -/

/-- The same error, of values that `R` relates. -/
inductive EvalError.Rel (R : Value → Value → Prop) : EvalError → EvalError → Prop
  | unbound (name : String) : Rel R (.unbound name) (.unbound name)
  | wrongKind (expected : Expected) {v w : Value} (h : R v w) :
    Rel R (.wrongKind expected v) (.wrongKind expected w)

theorem EvalError.Rel.eq {d e : EvalError} (h : EvalError.Rel Eq d e) : d = e := by
  cases h with
  | unbound name => rfl
  | wrongKind expected h => rw [h]

/-- Related values are coerced to the same, or not at all, and compare alike with others. -/
structure Value.Respected (R : Value → Value → Prop) : Prop where
  refl : ∀ v, R v v
  array : ∀ vs ws, List.Forall₂ R vs ws → R (.array vs) (.array ws)
  same : ∀ v v' w w', R v v' → R w w' → v.same w = v'.same w'
  toBool : ∀ v w, R v w → Agree Eq (EvalError.Rel R) v.toBool w.toBool
  toInt : ∀ v w, R v w → Agree Eq (EvalError.Rel R) v.toInt w.toInt
  toPiece : ∀ v w, R v w → Agree Eq (EvalError.Rel R) v.toPiece w.toPiece

theorem Value.agree_self {α : Type} (x : Except EvalError α) :
    Agree Eq (EvalError.Rel Eq) x x := by
  cases x with
  | ok a => exact rfl
  | error e =>
    cases e with
    | unbound name => exact .unbound name
    | wrongKind expected v => exact .wrongKind expected rfl

theorem Value.respected_eq : Value.Respected Eq where
  refl _ := rfl
  array vs ws h := by rw [List.forall₂_eq_eq_eq] at h; rw [h]
  same := by
    rintro v _ w _ rfl rfl
    rfl
  toBool v _ h := h ▸ agree_self v.toBool
  toInt v _ h := h ▸ agree_self v.toInt
  toPiece v _ h := h ▸ agree_self v.toPiece

/-! ## Evaluation -/

namespace Expression

theorem boardHolds_congr {ctx ctx' : Context} (h : ctx.Alike ctx') (p : Option Piece) :
    boardHolds ctx.game p = boardHolds ctx'.game p := by
  cases p with
  | none => rfl
  | some p => exact h.onBoard p

variable {ctx ctx' : Context} {s t : Scope} {R : Value → Value → Prop}

mutual

/-- The induction is on the expression, and the two evaluations are taken step by step. -/
theorem eval_agree (hR : Value.Respected R) (h : ctx.Alike ctx') (e : Expression)
    (hs : ∀ n ∈ e.names, Option.Rel R (s.get? n) (t.get? n)) :
    Agree R (EvalError.Rel R) (e.eval ctx s) (e.eval ctx' t) := by
  cases e with
  | const v => exact hR.refl v
  | binding n =>
    have hn := hs n (by simp [names])
    rw [eval, eval]
    generalize s.get? n = v at hn ⊢
    generalize t.get? n = w at hn ⊢
    cases hn with
    | some hvw => exact hvw
    | none => exact .unbound n
  | array items =>
    rw [eval, eval]
    exact (evalItems_agree hR h items hs).bind fun vs ws hvs => hR.array vs ws hvs
  | branch cond whenTrue whenFalse =>
    have hcond := eval_agree hR h cond fun n hn => hs n (by simp [names, hn])
    have htrue := eval_agree hR h whenTrue fun n hn => hs n (by simp [names, hn])
    have hfalse := eval_agree hR h whenFalse fun n hn => hs n (by simp [names, hn])
    rw [eval, eval]
    refine hcond.bind fun v w hv => (hR.toBool v w hv).bind ?_
    rintro b _ rfl
    cases b with
    | true => exact htrue
    | false => exact hfalse
  | all operands =>
    rw [eval, eval]
    exact evalAll_agree hR h operands hs
  | any operands =>
    rw [eval, eval]
    exact evalAny_agree hR h operands hs
  | equal operands =>
    rw [eval, eval]
    exact evalEqual_agree hR h operands hs .none
  | openRun length =>
    rw [eval, eval, h.openRunLength_eq]
    refine (eval_agree hR h length hs).bind fun v w hv => (hR.toInt v w hv).bind ?_
    rintro target _ rfl
    exact hR.refl _
  | lookup table key =>
    rw [eval, eval]
    refine (eval_agree hR h key hs).bind fun v w hv => (hR.toPiece v w hv).bind ?_
    rintro p _ rfl
    exact hR.refl _
  | onBoard piece =>
    rw [eval, eval]
    refine (eval_agree hR h piece hs).bind fun v w hv => (hR.toPiece v w hv).bind ?_
    rintro p _ rfl
    rw [boardHolds_congr h]
    exact hR.refl _

theorem evalItems_agree (hR : Value.Respected R) (h : ctx.Alike ctx') (es : List Expression)
    (hs : ∀ n ∈ namesOf es, Option.Rel R (s.get? n) (t.get? n)) :
    Agree (List.Forall₂ R) (EvalError.Rel R) (evalItems ctx s es) (evalItems ctx' t es) := by
  cases es with
  | nil => exact .nil
  | cons e rest =>
    have he := eval_agree hR h e fun n hn => hs n (by simp [namesOf, hn])
    have hrest := evalItems_agree hR h rest fun n hn => hs n (by simp [namesOf, hn])
    rw [evalItems, evalItems]
    exact he.bind fun v w hv => hrest.bind fun vs ws hvs => .cons hv hvs

theorem evalAll_agree (hR : Value.Respected R) (h : ctx.Alike ctx') (es : List Expression)
    (hs : ∀ n ∈ namesOf es, Option.Rel R (s.get? n) (t.get? n)) :
    Agree R (EvalError.Rel R) (evalAll ctx s es) (evalAll ctx' t es) := by
  cases es with
  | nil => exact hR.refl _
  | cons e rest =>
    have he := eval_agree hR h e fun n hn => hs n (by simp [namesOf, hn])
    have hrest := evalAll_agree hR h rest fun n hn => hs n (by simp [namesOf, hn])
    rw [evalAll, evalAll]
    refine he.bind fun v w hv => (hR.toBool v w hv).bind ?_
    rintro b _ rfl
    cases b with
    | true => exact hrest
    | false => exact hR.refl _

theorem evalAny_agree (hR : Value.Respected R) (h : ctx.Alike ctx') (es : List Expression)
    (hs : ∀ n ∈ namesOf es, Option.Rel R (s.get? n) (t.get? n)) :
    Agree R (EvalError.Rel R) (evalAny ctx s es) (evalAny ctx' t es) := by
  cases es with
  | nil => exact hR.refl _
  | cons e rest =>
    have he := eval_agree hR h e fun n hn => hs n (by simp [namesOf, hn])
    have hrest := evalAny_agree hR h rest fun n hn => hs n (by simp [namesOf, hn])
    rw [evalAny, evalAny]
    refine he.bind fun v w hv => (hR.toBool v w hv).bind ?_
    rintro b _ rfl
    cases b with
    | true => exact hR.refl _
    | false => exact hrest

theorem evalEqual_agree (hR : Value.Respected R) (h : ctx.Alike ctx') (es : List Expression)
    (hs : ∀ n ∈ namesOf es, Option.Rel R (s.get? n) (t.get? n)) {first first' : Option Value}
    (hfirst : Option.Rel R first first') :
    Agree R (EvalError.Rel R) (evalEqual ctx s first es) (evalEqual ctx' t first' es) := by
  cases es with
  | nil => cases hfirst <;> exact hR.refl _
  | cons e rest =>
    have he := eval_agree hR h e fun n hn => hs n (by simp [namesOf, hn])
    have hrest {first first' : Option Value} (hfirst : Option.Rel R first first') :
        Agree R (EvalError.Rel R) (evalEqual ctx s first rest) (evalEqual ctx' t first' rest) :=
      evalEqual_agree hR h rest (fun n hn => hs n (by simp [namesOf, hn])) hfirst
    cases hfirst with
    | none =>
      rw [evalEqual, evalEqual]
      exact he.bind fun v w hv => hrest (.some hv)
    | some hfirst =>
      rw [evalEqual, evalEqual]
      refine he.bind fun v w hv => ?_
      rw [hR.same _ _ _ _ hv hfirst]
      split
      · exact hrest (.some hfirst)
      · exact hR.refl _

end

/-- With the same values bound to its names. -/
theorem eval_congr (h : ctx.Alike ctx') (e : Expression)
    (hs : ∀ n ∈ e.names, s.get? n = t.get? n) : e.eval ctx s = e.eval ctx' t := by
  refine (eval_agree Value.respected_eq h e fun n hn => ?_).eq fun _ _ => EvalError.Rel.eq
  rw [hs n hn]
  cases t.get? n with
  | none => exact .none
  | some v => exact .some rfl

theorem test_congr (h : ctx.Alike ctx') (e : Expression)
    (hs : ∀ n ∈ e.names, s.get? n = t.get? n) : e.test ctx s = e.test ctx' t := by
  rw [test, test, eval_congr h e hs]

theorem replacement_congr (h : ctx.Alike ctx') (e : Expression)
    (hs : ∀ n ∈ e.names, s.get? n = t.get? n) : e.replacement ctx s = e.replacement ctx' t := by
  rw [replacement, replacement, eval_congr h e hs]

end Expression

end HexRules
