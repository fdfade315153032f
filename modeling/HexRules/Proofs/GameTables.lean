import HexRules.Games.Bundled
import HexRules.Proofs.ReactionTables
import Mathlib.Control.Traversable.Instances
import Mathlib.Data.List.Permutation

/-!
# Tables of the bundled games

All rules of the bundled games have one link, and their guards and results read nothing but the
names that the slots bind.  So each game has a table of what its rules do, whatever lies on the
board.

    game ∈ bundled → it compiles, to rules that do what a table of `tables` says
                                                                         (exists_tabulated)
-/

namespace HexRules.Games

open Definition RuleSet

def sigmar (name : String) : Piece := ⟨"sigmar", name⟩

def mofang (name : String) : Piece := ⟨"mofang", name⟩

/-- All pieces are taken, and nothing takes their place. -/
def cleared (pieces : List Piece) : Reaction := pieces.map fun p => (p, none)

def alchemyTable : List RuleEntry :=
  [⟨false, ["air", "earth", "fire", "water"].map fun prime =>
     cleared [sigmar "salt", sigmar prime]⟩,
   ⟨true, ["air", "earth", "fire", "water"].map fun prime =>
     cleared [sigmar prime, sigmar prime]⟩,
   ⟨false, ["lead", "tin", "iron", "copper", "silver"].map fun metal =>
     cleared [sigmar "quicksilver", sigmar metal]⟩,
   ⟨false, [cleared [sigmar "vitae", sigmar "mors"]]⟩,
   ⟨false, [cleared [sigmar "gold"]]⟩]

/-- What creation changes, and what that becomes. -/
def changes : List (String × String) :=
  [("wood", "fire"), ("fire", "earth"), ("earth", "metal"), ("metal", "water"), ("water", "wood"),
   ("heavenly", "earthly"), ("earthly", "human"), ("human", "heavenly")]

/-- A phase goes with the one that it destroys: two rules, with the slots in either order. -/
def fivePhasesTable : List RuleEntry :=
  [⟨true, [("metal", "wood"), ("water", "fire"), ("wood", "earth"), ("fire", "metal"),
     ("earth", "water")].map fun e => cleared [mofang e.1, mofang e.2]⟩,
   ⟨true, [("metal", "fire"), ("wood", "metal"), ("earth", "wood"), ("water", "earth"),
     ("fire", "water")].map fun e => cleared [mofang e.1, mofang e.2]⟩,
   ⟨false, [cleared [mofang "heavenly", mofang "yang"]]⟩,
   ⟨false, [cleared [mofang "earthly", mofang "yin"]]⟩,
   ⟨false, [cleared [mofang "qi", mofang "qi"]]⟩,
   ⟨false, [cleared [mofang "creation", mofang "creation"]]⟩,
   ⟨false, [[(mofang "yin", some (mofang "creation")), (mofang "yang", some (mofang "creation"))]]⟩,
   ⟨false, [cleared [mofang "heavenly", mofang "earthly", mofang "human"]]⟩,
   ⟨false, phases.map fun p => [(mofang "human", some (mofang p)), (mofang p, none)]⟩,
   ⟨false, changes.map fun e => [(mofang e.1, some (mofang e.2)), (mofang "creation", none)]⟩,
   ⟨false, [cleared (("destruction" :: phases).map mofang)]⟩]

/-- The tables of the bundled games, game by game. -/
def tables : List (List RuleEntry) := [alchemyTable, fivePhasesTable]

/-- For every metal but the lowest the one below it. -/
def downgrades : Table Piece Piece :=
  Table.ofList ([("tin", "lead"), ("iron", "tin"), ("copper", "iron"), ("silver", "copper"),
    ("gold", "silver")].map fun e => (sigmar e.1, sigmar e.2))

/-- Three neighbours in a row are empty, and the metal below is gone. -/
def freeMetal : Expression :=
  .all [.openRun (.const (.number (.int 3))),
    .equal [.onBoard (.lookup downgrades (.binding "self")), .const (.bool false)]]

/-- The two conditions, for the piece at the cell. -/
theorem test_freeMetal {ctx : Context} {s : Scope} {p : Piece}
    (hself : s.get? "self" = some (.piece (some p))) :
    freeMetal.test ctx s = .ok (decide (3 ≤ ctx.openRunLength) &&
      !Expression.boardHolds ctx.game (downgrades.get? p)) := by
  have hthree : (Number.int 3).toInt? = some 3 := rfl
  have hle : decide ((3 : Int) ≤ (ctx.openRunLength : Int)) = decide (3 ≤ ctx.openRunLength) :=
    decide_eq_decide.2 (by omega)
  simp only [freeMetal, Expression.test, Expression.eval, Expression.evalAll, Expression.evalEqual,
    Expression.lookupPiece, Value.toInt, Value.toPiece, hself, hthree, bind, Except.bind]
  rw [hle]
  cases decide (3 ≤ ctx.openRunLength) with
  | false => rfl
  | true =>
    cases Expression.boardHolds ctx.game (downgrades.get? p) with
    | false => rfl
    | true => rfl

/-! ## What the games compile to -/

theorem profiles_alchemy (b : Board Piece) (ctx : Context) (s : Scope) :
    (compileOn builtinFunctions builtinPredicates b alchemy).map
        (fun d => d.rules.rules.map fun c => c.profile ctx s) =
      .ok (alchemyTable.map fun e => (true, e.guarded, .ok e.reactions)) := by
  cbv

theorem profiles_fivePhases (b : Board Piece) (ctx : Context) (s : Scope) :
    (compileOn builtinFunctions builtinPredicates b fivePhases).map
        (fun d => d.rules.rules.map fun c => c.profile ctx s) =
      .ok (fivePhasesTable.map fun e => (true, e.guarded, .ok e.reactions)) := by
  cbv

theorem select_alchemy (b : Board Piece) :
    (compileOn builtinFunctions builtinPredicates b alchemy).map (fun d => d.select) =
      .ok freeMetal := by
  cbv

/-- Where something is known of what a document compiles to, it does compile. -/
theorem exists_of_map_compile {α : Type} {doc : GameDocument} {f : Definition → α} {v : α}
    (h : (compile doc).map f = .ok v) : ∃ d, compile doc = .ok d ∧ f d = v := by
  cases hd : compile doc with
  | error e =>
    rw [hd] at h
    cases h
  | ok d =>
    rw [hd] at h
    exact ⟨d, rfl, Except.ok.inj h⟩

theorem eq_of_map_compile {α : Type} {doc : GameDocument} {d : Definition} {f : Definition → α}
    {v : α} (hd : compile doc = .ok d) (h : (compile doc).map f = .ok v) : f d = v := by
  rw [hd] at h
  exact Except.ok.inj h

/-- A game whose rules have these profiles everywhere is compiled to rules that do what the table
says. -/
theorem exists_tabulated_of_profiles {doc : GameDocument} {table : List RuleEntry}
    (h : ∀ ctx s, (compile doc).map (fun d => d.rules.rules.map fun c => c.profile ctx s) =
      .ok (table.map fun e => (true, e.guarded, .ok e.reactions))) :
    ∃ d, compile doc = .ok d ∧ d.rules.Tabulated table := by
  obtain ⟨d, hd, -⟩ := exists_of_map_compile
    (h ⟨⟨Catalog.empty doc.id, Board.empty doc.radius⟩, Coord.origin⟩ Scope.empty)
  exact ⟨d, hd, tabulated_of_profiles fun ctx s => eq_of_map_compile hd (h ctx s)⟩

theorem exists_tabulated {game : String × GameDocument} (h : game ∈ bundled) :
    ∃ d, compile game.2 = .ok d ∧ ∃ table ∈ tables, d.rules.Tabulated table := by
  rcases List.mem_pair.1 h with rfl | rfl
  · obtain ⟨d, hd, htable⟩ := exists_tabulated_of_profiles (profiles_alchemy _)
    exact ⟨d, hd, alchemyTable, List.mem_cons_self, htable⟩
  · obtain ⟨d, hd, htable⟩ := exists_tabulated_of_profiles (profiles_fivePhases _)
    exact ⟨d, hd, fivePhasesTable, List.mem_cons_of_mem _ List.mem_cons_self, htable⟩

end HexRules.Games
