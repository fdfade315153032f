import HexRules.Proofs.BoardPieces
import HexRules.Proofs.GameTables
import HexRules.Proofs.OpenRuns

/-!
# The select conditions of the bundled games

In both games a piece comes free when enough neighbours in a row are empty and the piece that holds
it, if there is one, is gone from the board.  In `sigmar` every metal but the lowest is held by the
one below it; in `mofang` the number of neighbours depends on the piece and on what is selected.
`k.opens ctx selected p` says that of a lock `k`, and the select conditions say nothing else.

    s.definition.select.IsLock k → s.board.get? c = some p →
      s.isSelectable c = .ok (k.opens (s.definition.context c) s.candidates p)
                                                                         (isSelectable_eq)
    game ∈ bundled → it compiles, to what a sheet of `sheets` says       (exists_follows)
-/

namespace HexRules

/-! ## Locks -/

/-- When a piece comes free. -/
structure Lock where
  /-- How many neighbours in a row must be empty when some pieces have been selected before. -/
  gap : List Piece → Piece → Nat
  /-- The piece that must be gone from the board. -/
  holder : Piece → Option Piece

namespace Lock

def opens (k : Lock) (ctx : Context) (selected : List Piece) (p : Piece) : Bool :=
  decide (k.gap selected p ≤ ctx.openRunLength) && !Expression.boardHolds ctx.game (k.holder p)

theorem opens_iff (k : Lock) (ctx : Context) (selected : List Piece) (p : Piece) :
    k.opens ctx selected p = true ↔
      k.gap selected p ≤ ctx.openRunLength ∧ ∀ q ∈ k.holder p, q ∉ ctx.game.board.pieces := by
  rw [opens, Bool.and_eq_true, decide_eq_true_iff]
  cases k.holder p with
  | none => simp [Expression.boardHolds]
  | some q => simp [Expression.boardHolds, ← Game.onBoard_iff]

end Lock

/-- Of a piece and those selected before it the condition says whether the lock opens. -/
def Expression.IsLock (e : Expression) (k : Lock) : Prop :=
  ∀ (ctx : Context) (s : Scope) (selected : List Piece) (p : Piece),
    s.get? Session.selfName = some (.piece (some p)) →
    s.get? Session.selectedName = some (.array (selected.map fun q => .piece (some q))) →
    e.test ctx s = .ok (k.opens ctx selected p)

theorem Session.isSelectable_eq {s : Session} {k : Lock} {c : Coord} {p : Piece}
    (h : s.definition.select.IsLock k) (hp : s.board.get? c = some p) :
    s.isSelectable c = .ok (k.opens (s.definition.context c) s.candidates p) := by
  rw [isSelectable, hp]
  exact h _ _ s.candidates p rfl rfl

theorem Session.Legal.isLock {d : Definition} {s : Session} {k : Lock} (h : s.Legal d)
    (hlock : d.select.IsLock k) : s.definition.select.IsLock k := by
  rw [h.definition_eq]
  exact hlock

/-! ## Values -/

theorem Value.sameItems_pieces (ps qs : List Piece) :
    Value.sameItems (ps.map fun p => .piece (some p)) (qs.map fun q => .piece (some q)) =
      decide (ps = qs) := by
  induction ps generalizing qs with
  | nil => cases qs <;> simp [sameItems]
  | cons p ps ih => cases qs <;> simp [sameItems, same, ih]

namespace Expression

variable {ctx : Context} {s : Scope}

/-- A name compared with an expression. -/
theorem eval_equal_binding {name : String} {e : Expression} {v w : Value}
    (hname : s.get? name = some v) (he : e.eval ctx s = .ok w) :
    (equal [binding name, e]).eval ctx s = .ok (.bool (w.same v)) := by
  simp only [eval, evalEqual, hname, he, bind, Except.bind]
  cases w.same v <;> rfl

theorem eval_all_pair {e e' : Expression} {x y : Bool} (he : e.eval ctx s = .ok (.bool x))
    (he' : e'.eval ctx s = .ok (.bool y)) :
    (all [e, e']).eval ctx s = .ok (.bool (x && y)) := by
  simp only [eval, evalAll, he, he', Value.toBool, bind, Except.bind]
  cases x <;> cases y <;> rfl

/-- Is the piece of a name among some pieces? -/
theorem eval_any_piece {name : String} {p : Piece} (hname : s.get? name = some (.piece (some p)))
    (ps : List Piece) :
    (any (ps.map fun q => equal [binding name, const (.piece (some q))])).eval ctx s =
      .ok (.bool (decide (p ∈ ps))) := by
  rw [eval]
  induction ps with
  | nil => simp [evalAny]
  | cons q ps ih =>
    rw [List.map_cons, evalAny, eval_equal_binding hname rfl, ih]
    by_cases hpq : q = p
    · simp [Value.same, Value.toBool, bind, Except.bind, hpq]
    · simp [Value.same, Value.toBool, bind, Except.bind, hpq, Ne.symm hpq]

theorem eval_branch {cond whenTrue whenFalse : Expression} {x : Bool}
    (hcond : cond.eval ctx s = .ok (.bool x)) :
    (branch cond whenTrue whenFalse).eval ctx s =
      if x then whenTrue.eval ctx s else whenFalse.eval ctx s := by
  simp only [eval, hcond, Value.toBool, bind, Except.bind]

theorem test_openRun {e : Expression} {n : Nat} (he : e.eval ctx s = .ok (.number (.int n))) :
    (openRun e).test ctx s = .ok (decide (n ≤ ctx.openRunLength)) := by
  simp [test, eval, he, Value.toInt, Number.toInt?, Value.toBool, bind, Except.bind]

end Expression

/-! ## The bundled games -/

namespace Games

open Expression

def alchemyLock : Lock where
  gap _ _ := 3
  holder := downgrades.get?

theorem isLock_freeMetal : freeMetal.IsLock alchemyLock :=
  fun _ _ _ _ hself _ => test_freeMetal hself

/-- With a human selected a phase needs less room. -/
def fivePhasesLock : Lock where
  gap selected p :=
    if p = mofang "qi" then 5
    else if selected = [mofang "human"] ∧ p ∈ phases.map mofang then 2 else 3
  holder _ := none

/-- How many neighbours in a row must be empty. -/
def room : Expression :=
  .branch (.equal [.binding "self", .const (.piece (some (mofang "qi")))])
    (.const (.number (.int 5)))
    (.branch
      (.all
        [.equal [.binding "selected", .array [.const (.piece (some (mofang "human")))]],
         .any ((phases.map mofang).map fun p =>
           .equal [.binding "self", .const (.piece (some p))])])
      (.const (.number (.int 2))) (.const (.number (.int 3))))

theorem eval_room {ctx : Context} {s : Scope} {selected : List Piece} {p : Piece}
    (hself : s.get? "self" = some (.piece (some p)))
    (hselected : s.get? "selected" = some (.array (selected.map fun q => .piece (some q)))) :
    room.eval ctx s = .ok (.number (.int (fivePhasesLock.gap selected p))) := by
  have hqi : (Expression.equal [.binding "self", .const (.piece (some (mofang "qi")))]).eval ctx s =
      .ok (.bool (decide (p = mofang "qi"))) := by
    have hcomm : some (mofang "qi") = some p ↔ p = mofang "qi" := Option.some_inj.trans eq_comm
    rw [eval_equal_binding hself rfl, Value.same, decide_eq_decide.2 hcomm]
  have hhuman : (Expression.equal [.binding "selected",
      .array [.const (.piece (some (mofang "human")))]]).eval ctx s =
        .ok (.bool (decide (selected = [mofang "human"]))) := by
    rw [eval_equal_binding hselected (w := .array [.piece (some (mofang "human"))]) rfl, Value.same,
      decide_eq_decide.2 eq_comm, ← Value.sameItems_pieces]
    rfl
  rw [room, eval_branch hqi, eval_branch (eval_all_pair hhuman (eval_any_piece hself _)),
    ← Bool.decide_and, fivePhasesLock]
  simp only [decide_eq_true_iff]
  by_cases h : p = mofang "qi"
  · rw [if_pos h, if_pos h]
    rfl
  · rw [if_neg h, if_neg h]
    split <;> rfl

theorem isLock_openRun_room : (openRun room).IsLock fivePhasesLock := by
  intro ctx s selected p hself hselected
  rw [test_openRun (eval_room hself hselected)]
  simp [Lock.opens, fivePhasesLock, boardHolds]

theorem select_fivePhases (b : Board Piece) :
    (Definition.compileOn builtinFunctions builtinPredicates b fivePhases).map (fun d => d.select) =
      .ok (openRun room) := by
  cbv

end Games

/-! ## Sheets -/

/-- What a game lets its player do: the reactions of its rules, and the lock of its select
condition. -/
structure Sheet where
  table : List RuleEntry
  lock : Lock

/-- The rules and the select condition of a game do what a sheet says. -/
structure Definition.Follows (d : Definition) (sheet : Sheet) : Prop where
  rules : d.rules.Tabulated sheet.table
  select : d.select.IsLock sheet.lock

namespace Games

def alchemySheet : Sheet := ⟨alchemyTable, alchemyLock⟩

def fivePhasesSheet : Sheet := ⟨fivePhasesTable, fivePhasesLock⟩

/-- The sheets of the bundled games, game by game. -/
def sheets : List Sheet := [alchemySheet, fivePhasesSheet]

theorem table_mem_tables {sheet : Sheet} (h : sheet ∈ sheets) : sheet.table ∈ tables := by
  rcases List.mem_pair.1 h with rfl | rfl
  · exact List.mem_cons_self
  · exact List.mem_cons_of_mem _ List.mem_cons_self

theorem exists_follows_alchemy :
    ∃ d, Definition.compile alchemy = .ok d ∧ d.Follows alchemySheet := by
  obtain ⟨d, hd, htable⟩ := exists_tabulated_of_profiles (profiles_alchemy _)
  have hselect : d.select = freeMetal := eq_of_map_compile hd (select_alchemy _)
  exact ⟨d, hd, htable, hselect ▸ isLock_freeMetal⟩

theorem exists_follows_fivePhases :
    ∃ d, Definition.compile fivePhases = .ok d ∧ d.Follows fivePhasesSheet := by
  obtain ⟨d, hd, htable⟩ := exists_tabulated_of_profiles (profiles_fivePhases _)
  have hselect : d.select = .openRun room := eq_of_map_compile hd (select_fivePhases _)
  exact ⟨d, hd, htable, hselect ▸ isLock_openRun_room⟩

theorem exists_follows {game : String × GameDocument} (h : game ∈ bundled) :
    ∃ d, Definition.compile game.2 = .ok d ∧ ∃ sheet ∈ sheets, d.Follows sheet := by
  rcases List.mem_pair.1 h with rfl | rfl
  · obtain ⟨d, hd, hfollows⟩ := exists_follows_alchemy
    exact ⟨d, hd, alchemySheet, List.mem_cons_self, hfollows⟩
  · obtain ⟨d, hd, hfollows⟩ := exists_follows_fivePhases
    exact ⟨d, hd, fivePhasesSheet, List.mem_cons_of_mem _ List.mem_cons_self, hfollows⟩

end Games

end HexRules
