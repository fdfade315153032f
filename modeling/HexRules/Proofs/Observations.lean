import HexRules.Proofs.BoardPieces
import HexRules.Proofs.CompiledParts
import HexRules.Proofs.ConditionGrammar
import HexRules.Proofs.Evaluation
import HexRules.Proofs.Selection
import HexRules.Proofs.ValueOrder

/-!
# What an expression can see

A compiled expression sees the values of the names that are written in it with their mark, which of
the six cells around its cell are occupied, and which pieces the board holds.  It sees no other cell,
no other binding, and not how the scope is stacked; nor does it see in what form a number is bound,
but what it answers may be of that form.

    compile g builtinFunctions j = .ok e → ∀ n ∈ e.names, j.Mentions n   (yields_names)
    e.eval ctx s = e.eval ctx' t where they look alike                   (eval_sees_surroundings)
-/

namespace HexRules

/-! ## Written names -/

/-- The name is written in the value with its mark, in arrays and objects at any depth. -/
inductive Json.Mentions (name : String) : Json → Prop
  | here {text : String} (h : text.toList = Expression.nameMark :: name.toList) :
    Mentions name (.string text)
  | item {items : List Json} {j : Json} (hj : j ∈ items) (h : Mentions name j) :
    Mentions name (.array items)
  | member {members : List (String × Json)} {e : String × Json} (he : e ∈ members)
      (h : Mentions name e.2) : Mentions name (.object members)

namespace Expression

theorem forall_mem_namesOf {es : List Expression} {P : String → Prop} :
    (∀ n ∈ namesOf es, P n) ↔ ∀ e ∈ es, ∀ n ∈ e.names, P n := by
  induction es with
  | nil => simp [namesOf]
  | cons e rest ih => rw [namesOf, List.forall_mem_append, ih, List.forall_mem_cons]

theorem inherited_names (g : Game) (P : String → Prop) :
    Inherited g fun e => ∀ n ∈ e.names, P n where
  array_iff _ := forall_mem_namesOf
  branch _ _ _ hcond htrue hfalse :=
    List.forall_mem_append.2 ⟨hcond, List.forall_mem_append.2 ⟨htrue, hfalse⟩⟩
  all _ := forall_mem_namesOf.2
  any _ := forall_mem_namesOf.2
  equal _ := forall_mem_namesOf.2
  openRun _ h := h
  lookup _ _ _ _ h := h
  onBoard _ h := h

theorem compositional_names (g : Game) :
    Compositional g fun j e => ∀ n ∈ e.names, j.Mentions n where
  null _ hn := nomatch hn
  bool _ _ hn := nomatch hn
  number _ _ hn := nomatch hn
  text text := by
    unfold ofText
    split
    · rename_i rest htext
      intro n hn
      rw [List.mem_singleton.1 hn]
      exact .here (by rw [htext, String.toList_ofList]; rfl)
    · exact (yields_true _).bind fun p _ n hn => nomatch hn
  item _ _ hj _ h n hn := .item hj (h n hn)
  member _ _ hx _ h n hn := .member hx (h n hn)
  inherited _ := inherited_names g _

/-- No name comes in from elsewhere, as no function of the library is an alias. -/
theorem yields_names (g : Game) (j : Json) :
    Yields (fun e => ∀ n ∈ e.names, j.Mentions n) (compile g builtinFunctions j) := by
  have hexpand {expand : Identifier → Json → Except CompileError Expression} :
      ∀ i x, builtinFunctions.get i = .ok (.alias x) → ∀ j,
        Yields (fun e => ∀ n ∈ e.names, Json.Mentions n j) (expand i x) := by
    intro i x hget
    rw [Registry.get_eq_ok_iff, Function.get?_builtinFunctions] at hget
    obtain ⟨function, -, hbuiltin⟩ := hget
    cases hbuiltin
  unfold compile
  cases builtinFunctions.size with
  | zero => exact (compositional_names g).yields_ofJson hexpand j
  | succ depth => exact (compositional_names g).yields_ofJson hexpand j

end Expression

/-! ## Forms of numbers -/

/-- An integer and a floating-point number of its value are coerced to the same, and nothing is
equal to only one of them. -/
theorem Value.respected_same : Value.Respected fun v w => v.same w = true where
  refl := equivalence_same.refl
  array vs ws h := (same_iff_equal _ _).2 (.array (h.imp fun v w => (same_iff_equal v w).1))
  same v v' w w' hv hw := by
    rw [← word_eq_iff] at hv hw
    rw [same_eq_decide, same_eq_decide, hv, hw]
  toBool v w h := by
    cases (same_iff_equal v w).1 h with
    | bool b => exact rfl
    | number _ | piece _ | array _ => exact .wrongKind .boolean h
  toInt v w h := by
    cases (same_iff_equal v w).1 h with
    | @number m n hvalue =>
      rw [toInt, toInt, Number.toInt?_eq hvalue]
      cases n.toInt? with
      | some i => exact rfl
      | none => exact .wrongKind .integer h
    | bool _ | piece _ | array _ => exact .wrongKind .number h
  toPiece v w h := by
    cases (same_iff_equal v w).1 h with
    | piece p => exact rfl
    | bool _ | number _ | array _ => exact .wrongKind .piece h

/-! ## Contexts -/

theorem Context.alike_of_surroundings {ctx ctx' : Context}
    (hnext : ∀ d ∈ Coord.directions, (ctx.game.board.get? (ctx.pos.add d)).isSome =
      (ctx'.game.board.get? (ctx'.pos.add d)).isSome)
    (hpieces : ∀ p, p ∈ ctx.game.board.pieces ↔ p ∈ ctx'.game.board.pieces) : ctx.Alike ctx' where
  occupied := by
    rw [occupiedNeighbors, occupiedNeighbors, Coord.neighbors, Coord.neighbors, List.map_map,
      List.map_map]
    exact List.map_congr_left hnext
  onBoard p := by rw [Bool.eq_iff_iff, Game.onBoard_iff, Game.onBoard_iff, hpieces]

/-- **What an expression can see.**  All names of a compiled expression are written in it.  Let the
same neighbours be occupied in two contexts, direction by direction, and the same pieces be on their
boards.  When each name of the expression has the same value in two scopes, or no value in both, the
expression has the same value or raises the same error; and when those values are equal but for the
forms of numbers, so are its values, or the values that the errors tell of. -/
theorem eval_sees_surroundings {g : Game} {j : Json} {e : Expression}
    (hj : Expression.compile g builtinFunctions j = .ok e) {ctx ctx' : Context}
    (hnext : ∀ d ∈ Coord.directions, (ctx.game.board.get? (ctx.pos.add d)).isSome =
      (ctx'.game.board.get? (ctx'.pos.add d)).isSome)
    (hpieces : ∀ p, p ∈ ctx.game.board.pieces ↔ p ∈ ctx'.game.board.pieces) (s t : Scope) :
    (∀ n ∈ e.names, j.Mentions n) ∧
    ((∀ n ∈ e.names, s.get? n = t.get? n) → e.eval ctx s = e.eval ctx' t) ∧
    ((∀ n ∈ e.names, Option.Rel (fun v w => v.same w = true) (s.get? n) (t.get? n)) →
      Agree (fun v w => v.same w = true) (EvalError.Rel fun v w => v.same w = true)
        (e.eval ctx s) (e.eval ctx' t)) := by
  have halike : ctx.Alike ctx' := Context.alike_of_surroundings hnext hpieces
  refine ⟨?_, Expression.eval_congr halike e, Expression.eval_agree Value.respected_same halike e⟩
  exact (Expression.yields_names g j).of_ok hj

namespace Relay

/-- Is there room for a run as long as the player asks for, once the red piece is on the board? -/
def room : Json :=
  .object [("type", .string "if"),
    ("cond", .object [("type", .string "board-contains"), ("value", .string "red")]),
    ("then", .object [("type", .string "contiguous-neighbors"), ("value", .string "@run")]),
    ("else", .bool false)]

/-- The blue piece lies east of an empty cell, and the red one farther off. -/
def apart : Board Piece :=
  ((Board.empty 2).put ⟨1, 1⟩ (some red) (by rw [Board.inBounds_iff_mem]; decide)).put ⟨0, 1⟩
    (some blue) (by rw [Board.inBounds_iff_mem]; decide)

theorem mem_pieces_two {b : Board Piece} (hb : ∀ c, b.get? c = none) {c d : Coord} {p q r : Piece}
    (hdc : d ≠ c) (hc : b.inBounds c = true) (hd : (b.put c (some p) hc).inBounds d = true) :
    r ∈ ((b.put c (some p) hc).put d (some q) hd).pieces ↔ r = q ∨ r = p := by
  simp only [Board.mem_pieces_iff, Board.get?_put]
  constructor
  · rintro ⟨e, he⟩
    split at he
    · exact .inl (Option.some.inj he).symm
    · split at he
      · exact .inr (Option.some.inj he).symm
      · rw [hb] at he
        cases he
  · rintro (rfl | rfl)
    · exact ⟨d, if_pos rfl⟩
    · exact ⟨c, by rw [if_neg hdc.symm, if_pos rfl]⟩

/-- A run of five is asked for, as an integer and as a floating-point number in another frame. -/
theorem room_seen_alike :
    ∃ e, Expression.compile (Catalog.mk "relay" [red, blue] Table.empty Table.empty)
        builtinFunctions room = .ok e ∧
      Agree (fun v w => v.same w = true) (EvalError.Rel fun v w => v.same w = true)
        (e.eval ⟨⟨Catalog.empty "relay", board⟩, Coord.origin⟩
          (Scope.ofBindings [("run", .number (.int 5))]))
        (e.eval ⟨⟨Catalog.empty "relay", apart⟩, ⟨-1, 1⟩⟩
          (Scope.empty.push.add "run" (.number (.float (.finite false 5 0))))) := by
  have hcompile : Expression.compile (Catalog.mk "relay" [red, blue] Table.empty Table.empty)
      builtinFunctions room = .ok (.branch (.onBoard (.const (.piece (some red))))
        (.openRun (.binding "run")) (.const (.bool false))) := by rfl
  refine ⟨_, hcompile, (eval_sees_surroundings hcompile ?_ ?_ _ _).2.2 ?_⟩
  · simp [Coord.directions, Coord.add, Coord.origin, board, apart, east, Board.get?_put,
      Board.get?_empty]
  · intro p
    rw [board, apart, mem_pieces_two (Board.get?_empty 1) (by decide),
      mem_pieces_two (Board.get?_empty 2) (by decide)]
  · intro n hn
    simp only [Expression.names, List.nil_append, List.append_nil, List.mem_singleton] at hn
    subst hn
    exact .some (by decide +kernel)

end Relay

end HexRules
