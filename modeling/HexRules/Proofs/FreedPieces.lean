import HexRules.Proofs.MetalOrder

/-!
# Freed pieces

In the bundled games a piece that has come free stays free.  Clicks put pieces on cells that hold
one already, so the empty neighbours of a cell stay empty, and no rule puts on the board a piece
that holds another one.

    no reaction places q, q is not on the board → q does not come onto it
                                                                         (not_mem_pieces_clicks)
    d.Follows sheet, sheet.Lasting, s.Legal d → a lock that opens on s.board opens on that of
      s.clicks cs                                                        (Legal.opens_clicks)
    sheet ∈ sheets → sheet.Lasting                                       (lasting_of_mem_sheets)
-/

namespace HexRules

theorem Board.Exchanges.mem {b b' : Board Piece} {r : Reaction} {p : Piece} (h : b.Exchanges b' r)
    (hp : p ∈ b'.pieces) : p ∈ r.placed ∨ p ∈ b.pieces :=
  List.mem_append.1 ((List.Perm.mem_iff h).1 (List.mem_append_right _ hp))

/-- A lock opens where fewer cells are occupied and what holds the piece is gone. -/
theorem Lock.opens_mono {k : Lock} {ctx ctx' : Context} {selected : List Piece} {p : Piece}
    (hpos : ctx'.pos = ctx.pos)
    (hoccupied : ∀ c, (ctx'.game.board.get? c).isSome = true →
      (ctx.game.board.get? c).isSome = true)
    (hgone : ∀ q ∈ k.holder p, q ∉ ctx.game.board.pieces → q ∉ ctx'.game.board.pieces)
    (h : k.opens ctx selected p = true) : k.opens ctx' selected p = true := by
  obtain ⟨hgap, hholder⟩ := (opens_iff _ _ _ _).1 h
  refine (opens_iff _ _ _ _).2 ⟨?_, fun q hq => hgone q hq (hholder q hq)⟩
  exact Nat.le_trans hgap (Context.openRunLength_mono hpos hoccupied)

/-- The rules put no piece on the board that a lock waits for. -/
def Sheet.Lasting (sheet : Sheet) : Prop :=
  ∀ r ∈ RuleSet.reactionsOf sheet.table, ∀ q ∈ r.placed, ∀ p, sheet.lock.holder p ≠ some q

namespace Session.Legal

variable {d : Definition} {s : Session} {sheet : Sheet} {table : List RuleEntry}

theorem not_mem_pieces_clicks (h : s.Legal d) (htable : d.rules.Tabulated table) {q : Piece}
    (hplaced : ∀ r ∈ RuleSet.reactionsOf table, q ∉ r.placed) (hq : q ∉ s.board.pieces)
    (cs : List Coord) : q ∉ (s.clicks cs).board.pieces := by
  induction cs generalizing s with
  | nil => exact hq
  | cons c rest ih =>
    refine ih (h.click c) fun hmem => ?_
    rcases h.exchange htable c with ⟨r, hr, -, hexchange⟩ | ⟨-, hboard⟩
    · rcases hexchange.mem hmem with hmem | hmem
      · exact hplaced r hr hmem
      · exact hq hmem
    · rw [hboard] at hmem
      exact hq hmem

theorem opens_clicks (h : s.Legal d) (hfollows : d.Follows sheet) (hlasting : sheet.Lasting)
    {c : Coord} {selected : List Piece} {p : Piece}
    (hopens : sheet.lock.opens (s.definition.context c) selected p = true) (cs : List Coord) :
    sheet.lock.opens ((s.clicks cs).definition.context c) selected p = true := by
  have hpos : ((s.clicks cs).definition.context c).pos = (s.definition.context c).pos := rfl
  refine Lock.opens_mono hpos (fun e he => ?_) (fun q hq hgone => ?_) hopens
  · exact (s.board.mem_occupied_iff e).1
      (h.occupied_clicks cs (((s.clicks cs).board.mem_occupied_iff e).2 he))
  · exact h.not_mem_pieces_clicks hfollows.rules (fun r hr hmem => hlasting r hr q hmem p hq)
      hgone cs

end Session.Legal

theorem Games.lasting_of_mem_sheets {sheet : Sheet} (h : sheet ∈ sheets) : sheet.Lasting := by
  rcases List.mem_pair.1 h with rfl | rfl
  · intro r hr q hq
    have hplaced : r.placed = [] := (neutral_alchemyTable r hr).1
    rw [hplaced] at hq
    cases hq
  · exact fun _ _ _ _ _ => Option.some_ne_none _ ∘ Eq.symm

theorem Session.candidates_of_selected_nil {s : Session} (h : s.selected = []) :
    s.candidates = [] := by
  rw [candidates, h]
  rfl

/-- **What is free stays free.**  Take a session of a bundled game, on any board and after any
clicks, with nothing selected.  If the select condition holds at a cell, it holds there after any
more clicks, whenever nothing is selected and the cell holds that piece. -/
theorem free_stays_free : ∀ game ∈ Games.bundled, ∃ d, Definition.compile game.2 = .ok d ∧
    ∀ (b : Board Piece) (cs more : List Coord) (s t : Session),
      (Session.onBoard d b).clicks cs = s → s.clicks more = t → s.selected = [] → t.selected = [] →
      ∀ (c : Coord) (p : Piece), s.board.get? c = some p → t.board.get? c = some p →
        s.isSelectable c = .ok true → t.isSelectable c = .ok true := by
  intro game hgame
  obtain ⟨d, hd, sheet, hsheet, hfollows⟩ := Games.exists_follows hgame
  refine ⟨d, hd, ?_⟩
  rintro b cs more s t hs rfl hnone hnone' c p hp hp' hselect
  have hlegal : s.Legal d := hs ▸ (Session.legal_onBoard d b).clicks cs
  have hlock := hlegal.isLock hfollows.select
  have hlock' := (hlegal.clicks more).isLock hfollows.select
  rw [Session.isSelectable_eq hlock hp, Session.candidates_of_selected_nil hnone] at hselect
  rw [Session.isSelectable_eq hlock' hp', Session.candidates_of_selected_nil hnone']
  exact congrArg Except.ok (hlegal.opens_clicks hfollows (Games.lasting_of_mem_sheets hsheet)
    (Except.ok.inj hselect) more)

namespace Games

open Session Coord Relay

/-- The salt beside tin and quicksilver is free before they go, and after. -/
theorem salt_stays_free : ("sigmar", alchemy) ∈ bundled ∧
    ∃ d, Definition.compile alchemy = .ok d ∧
      ∃ t, (onBoard d tinBoard).clicks [east, origin] = t ∧ t.selected = [] ∧
        t.board.get? east = none ∧ t.board.get? northEast = some (sigmar "salt") ∧
        (onBoard d tinBoard).isSelectable northEast = .ok true ∧
        t.isSelectable northEast = .ok true := by
  have hmem : ("sigmar", alchemy) ∈ bundled := List.mem_cons_self
  obtain ⟨d, hd, hfollows⟩ := exists_follows_alchemy
  obtain ⟨d', hd', hfree⟩ := free_stays_free _ hmem
  cases Except.ok.inj (hd.symm.trans hd')
  obtain ⟨m, -, hfires, hnone⟩ := click_origin hfollows
  have hclick : (onBoard d tinBoard).click east = _ := click_east hfollows
  have hclicks : (onBoard d tinBoard).clicks [east, origin] =
      ((tinSession d [east]).click origin).session := by
    rw [clicks, hclick]
    rfl
  have hsalt : tinBoard.get? northEast = some (sigmar "salt") := get?_tinBoard northEast
  have hother : northEast ∉ [east, origin] := by decide
  have hkept : ((tinSession d [east]).click origin).session.board.get? northEast =
      some (sigmar "salt") := (hfires.others northEast hother).trans hsalt
  have hselect : (onBoard d tinBoard).isSelectable northEast = .ok true :=
    isSelectable_tinSession hfollows [] (by decide)
  exact ⟨hmem, d, hd, _, hclicks, hfires.selected,
    hfires.get?_eq_none hnone (List.mem_append_left _ List.mem_cons_self), hkept, hselect,
    hfree tinBoard [] [east, origin] _ _ rfl hclicks rfl hfires.selected northEast _ hsalt hkept
      hselect⟩

end Games

end HexRules
