import HexRules.Definition
import HexRules.Proofs.Computations

/-!
# Compiling reads no board

While a game is compiled, all that builds its conditions, predicates and rules has the game at hand
with its board.  But names are all that is looked up in it: no form of condition and no part of a
rule reads the board, at any depth, so on another board the same comes out, or the same error.

    ofJson (g.withBoard b) functions expand j = ofJson g functions expand j
                                                                         (ofJson_withBoard)
    compile (g.withBoard b) functions j = compile g functions j          (compile_withBoard)
    (k.withBoard b).rule d = k.rule d                                    (rule_withBoard)
    (compileOn functions predicates a doc).map (·.withBoard b) =
      compileOn functions predicates b doc                               (map_withBoard_compileOn)
-/

namespace HexRules

/-! ## Conditions -/

namespace Expression

variable (g : Game) (b : Board Piece) (functions : Registry FunctionBuilder)
  (expand : Identifier → Json → Except CompileError Expression)

theorem ofText_withBoard (text : String) : ofText (g.withBoard b) text = ofText g text := by
  unfold ofText
  rw [Game.catalog_withBoard]

theorem lookupTable_withBoard (parts : List (String × Part)) :
    lookupTable (g.withBoard b) parts = lookupTable g parts := by
  unfold lookupTable
  rw [Game.catalog_withBoard]

/-- A function asks for members of its object, and only a look-up for something of the game. -/
theorem ofFunction_withBoard (parts : List (String × Part)) (type : String) (function : Function) :
    ofFunction (g.withBoard b) parts type function = ofFunction g parts type function := by
  cases function with
  | lookup => rw [ofFunction, ofFunction, lookupTable_withBoard]
  | branch => rfl
  | all => rfl
  | any => rfl
  | equal => rfl
  | openRun => rfl
  | onBoard => rfl

theorem ofObject_withBoard (parts : List (String × Part)) :
    ofObject (g.withBoard b) functions expand parts = ofObject g functions expand parts := by
  simp only [ofObject, ofFunction_withBoard]

section Parts

variable {g b functions expand}

theorem ofItems_withBoard {items : List Json}
    (h : ∀ j ∈ items, ofJson (g.withBoard b) functions expand j = ofJson g functions expand j) :
    ofItems (g.withBoard b) functions expand items = ofItems g functions expand items := by
  induction items with
  | nil => rfl
  | cons j rest ih =>
    obtain ⟨hj, hrest⟩ := List.forall_mem_cons.1 h
    rw [ofItems, ofItems, hj, ih hrest]

theorem ofMembers_withBoard {members : List (String × Json)}
    (h : ∀ e ∈ members,
      ofJson (g.withBoard b) functions expand e.2 = ofJson g functions expand e.2) :
    ofMembers (g.withBoard b) functions expand members = ofMembers g functions expand members := by
  rw [ofMembers_eq_map, ofMembers_eq_map]
  refine List.map_congr_left fun e he => ?_
  rw [h e he]

end Parts

/-- The induction is on the value: an array is compiled from its items, and an object from its
members, which are compiled as it is itself. -/
theorem ofJson_withBoard (j : Json) :
    ofJson (g.withBoard b) functions expand j = ofJson g functions expand j := by
  induction j using Json.induction with
  | null => rfl
  | bool x => rfl
  | number n => rfl
  | string text => exact ofText_withBoard g b text
  | array items ih => rw [ofJson, ofJson, ofItems_withBoard ih]
  | object members ih => rw [ofJson, ofJson, ofMembers_withBoard ih, ofObject_withBoard]

/-- What an alias stands for is compiled with the same game, one level further down. -/
theorem compileTo_withBoard (depth : Nat) (j : Json) :
    compileTo (g.withBoard b) functions depth j = compileTo g functions depth j := by
  induction depth generalizing j with
  | zero => exact ofJson_withBoard g b functions _ j
  | succ depth ih =>
    have hexpand : (fun (_ : Identifier) e => compileTo (g.withBoard b) functions depth e) =
        fun _ e => compileTo g functions depth e := by
      funext i e
      exact ih e
    rw [compileTo, compileTo, hexpand, ofJson_withBoard]

theorem compile_withBoard (j : Json) :
    compile (g.withBoard b) functions j = compile g functions j :=
  compileTo_withBoard g b functions functions.size j

end Expression

/-! ## Rules -/

namespace Compiler

/-- The compiler of the same game on another board. -/
def withBoard (k : Compiler) (b : Board Piece) : Compiler := { k with game := k.game.withBoard b }

variable (k : Compiler) (b : Board Piece)

theorem catalog_withBoard : (k.withBoard b).game.catalog = k.game.catalog := rfl

theorem expression_withBoard : (k.withBoard b).expression = k.expression := by
  funext j
  exact Expression.compile_withBoard k.game b k.functions j

/-- A predicate is built from a tag or a mapping of the game. -/
theorem ofKind_withBoard (members : List (String × Json)) (type : String) (kind : PredicateKind) :
    (k.withBoard b).ofKind members type kind = k.ofKind members type kind := by
  cases kind with
  | member => rw [ofKind, ofKind, catalog_withBoard]
  | key => rw [ofKind, ofKind, catalog_withBoard]

theorem predicate_withBoard (members : List (String × Json)) :
    (k.withBoard b).predicate members = k.predicate members := by
  have hpredicates : (k.withBoard b).predicates = k.predicates := rfl
  simp only [predicate, hpredicates, ofKind_withBoard]

theorem slot_withBoard : (k.withBoard b).slot = k.slot := by
  funext item
  cases item with
  | piece name => rw [slot, slot, catalog_withBoard]
  | object members => exact predicate_withBoard k b members

theorem matcher_withBoard (input : List InputItem) :
    (k.withBoard b).matcher input = k.matcher input := by
  unfold matcher
  rw [catalog_withBoard, slot_withBoard]

theorem guard_withBoard (guard : Option Json) : (k.withBoard b).guard guard = k.guard guard := by
  cases guard with
  | none => rfl
  | some j => rw [Compiler.guard, Compiler.guard, expression_withBoard]

theorem results_withBoard (d : LinkDocument) : (k.withBoard b).results d = k.results d := by
  unfold results
  rw [expression_withBoard]

theorem link_withBoard : (k.withBoard b).link = k.link := by
  funext d
  rw [link, link, matcher_withBoard, guard_withBoard, results_withBoard]

theorem rule_withBoard : (k.withBoard b).rule = k.rule := by
  funext d
  rw [rule, rule, link_withBoard]

theorem ruleSet_withBoard (ds : List RuleDocument) :
    (k.withBoard b).ruleSet ds = k.ruleSet ds := by
  rw [ruleSet, ruleSet, rule_withBoard]

end Compiler

/-! ## Games -/

namespace Definition

theorem bankEntry_withBoard (g : Game) (b : Board Piece) :
    bankEntry (g.withBoard b) = bankEntry g := by
  funext e
  rw [bankEntry, bankEntry, Game.catalog_withBoard]

variable (functions : Registry FunctionBuilder) (predicates : Registry PredicateKind)

/-- The board of a definition is the one that it was compiled on, and nothing else of it is. -/
theorem map_withBoard_compileOn (a b : Board Piece) (doc : GameDocument) :
    (compileOn functions predicates a doc).map (fun d => d.withBoard b) =
      compileOn functions predicates b doc := by
  unfold compileOn
  cases Catalog.build doc.id doc.nodes doc.tags doc.mappings with
  | error e => rfl
  | ok catalog =>
    have hrules := Compiler.ruleSet_withBoard ⟨⟨catalog, a⟩, functions, predicates⟩ b doc.rules
    have hselect := congrFun
      (Compiler.expression_withBoard ⟨⟨catalog, a⟩, functions, predicates⟩ b) doc.select
    have hbank := bankEntry_withBoard ⟨catalog, a⟩ b
    simp only [Compiler.withBoard, Game.withBoard] at hrules hselect hbank
    dsimp only [bind, Except.bind]
    rw [hrules, hselect, hbank]
    cases Compiler.ruleSet ⟨⟨catalog, a⟩, functions, predicates⟩ doc.rules with
    | error e => rfl
    | ok rules =>
      cases Compiler.expression ⟨⟨catalog, a⟩, functions, predicates⟩ doc.select with
      | error e => rfl
      | ok select =>
        cases doc.center.mapM catalog.resolve with
        | error e => rfl
        | ok center => cases doc.bank.mapM (bankEntry ⟨catalog, a⟩) <;> rfl

variable {functions predicates} {a b : Board Piece} {doc : GameDocument} {d : Definition}

theorem compileOn_withBoard (h : compileOn functions predicates a doc = .ok d) :
    compileOn functions predicates b doc = .ok (d.withBoard b) := by
  rw [← map_withBoard_compileOn functions predicates a b doc, h]
  rfl

theorem compileOn_error {e : CompileError} (h : compileOn functions predicates a doc = .error e) :
    compileOn functions predicates b doc = .error e := by
  rw [← map_withBoard_compileOn functions predicates a b doc, h]
  rfl

end Definition

end HexRules
