import HexRules.Proofs.ClickOrder
import HexRules.Proofs.Conservation
import HexRules.Proofs.Progress
import HexRules.Proofs.SelectConditions

/-!
# The order of the metals in `sigmar`

A click may clear a piece that was selected many clicks before.  The select condition held for it
then, and since no click that keeps it selected changes the board, it holds for it now.  So whatever
a click changes was free on the board just before, and a metal is free only when the one below it is
gone.

    s.Legal d, d.select.IsLock k → the lock of every selected piece opens on s.board
                                                                         (Legal.opens_of_mem)
    a click changes what a cell holds → the lock of the piece there opened just before
                                                                         (Legal.opens_of_changed)
-/

namespace HexRules

namespace Session

variable {d : Definition} {s : Session} {k : Lock} {c e : Coord} {p : Piece}

namespace Legal

theorem opens_of_mem (h : s.Legal d) (hlock : d.select.IsLock k) (he : e ∈ s.selected)
    (hp : s.board.get? e = some p) :
    ∃ selected, k.opens (s.definition.context e) selected p = true := by
  obtain ⟨i, hi, rfl⟩ := List.getElem_of_mem he
  have hlt : i < s.candidates.length := h.holds.length_eq ▸ hi
  have hheld := h.holds.get hi hlt
  rw [List.get_eq_getElem, List.get_eq_getElem, hp, Option.some_inj] at hheld
  have heval := h.selectable i _ _ (List.getElem?_eq_getElem hi) (List.getElem?_eq_getElem hlt)
  rw [← hheld] at heval
  have htest : s.definition.select.test (s.definition.context s.selected[i])
      (Scope.ofBindings [(selfName, .piece (some p)),
        (selectedName, .array ((s.candidates.take i).map fun q => .piece (some q)))]) =
      .ok true := by
    rw [Expression.test, heval]
    rfl
  exact ⟨s.candidates.take i, Except.ok.inj ((h.isLock hlock _ _ _ p rfl rfl).symm.trans htest)⟩

/-- The cell has been selected before, or it is the one that is clicked. -/
theorem opens_of_changed (h : s.Legal d) (hlock : d.select.IsLock k)
    (hp : s.board.get? e = some p) (hchanged : (s.click c).session.board.get? e ≠ some p) :
    ∃ selected, k.opens (s.definition.context e) selected p = true := by
  have hcases := s.clicksTo_click c
  generalize s.click c = result at hcases hchanged
  cases hcases with
  | tested q o hc hq hselect ho =>
    cases o with
    | success m =>
      have hfires := (h.fires hc hq ho).2
      by_cases he : e ∈ s.selected ++ [c]
      · rcases List.mem_append.1 he with he | he
        · exact h.opens_of_mem hlock he hp
        · cases List.mem_singleton.1 he
          cases hp.symm.trans hq
          rw [isSelectable_eq (h.isLock hlock) hp] at hselect
          exact ⟨s.candidates, Except.ok.inj hselect⟩
      · exact absurd ((hfires.others e he).trans hp) hchanged
    | pending => exact absurd hp hchanged
    | failure => exact absurd hp hchanged
  | _ => exact absurd hp hchanged

end Legal

end Session

namespace Games

/-- The mapping of the game is the table that its select condition looks up. -/
theorem mapping_downgrade (b : Board Piece) :
    (Definition.compileOn builtinFunctions builtinPredicates b alchemy).map
      (fun d => d.game.catalog.mapping "downgrade") = .ok (.ok downgrades) := by
  cbv

end Games

/-- **Metals go in order.**  In `sigmar`, on any board and after any clicks, when a click clears a
metal, on its own cell or on that of a piece that goes with it, no cell held the metal below it just
before.  The mapping of the game says which metal that is, for every metal but the lowest. -/
theorem metals_go_in_order : ∃ d, Definition.compile Games.alchemy = .ok d ∧
    d.game.catalog.mapping "downgrade" = .ok Games.downgrades ∧
    Games.downgrades.keys = ["tin", "iron", "copper", "silver", "gold"].map Games.sigmar ∧
    ∀ (b : Board Piece) (cs : List Coord) (s : Session), (Session.onBoard d b).clicks cs = s →
      ∀ (c e : Coord) (metal lower : Piece), s.board.get? e = some metal →
        (s.click c).session.board.get? e = none → Games.downgrades.get? metal = some lower →
        ∀ f, s.board.get? f ≠ some lower := by
  obtain ⟨d, hd, hfollows⟩ := Games.exists_follows_alchemy
  refine ⟨d, hd, Games.eq_of_map_compile hd (Games.mapping_downgrade _), by decide +kernel, ?_⟩
  intro b cs s hs c e metal lower hmetal hcleared hlower f hf
  have hlegal : s.Legal d := hs ▸ (Session.legal_onBoard d b).clicks cs
  have hchanged : (s.click c).session.board.get? e ≠ some metal := by
    rw [hcleared]
    exact Option.some_ne_none metal ∘ Eq.symm
  obtain ⟨selected, hopens⟩ := hlegal.opens_of_changed hfollows.select hmetal hchanged
  have hgone := ((Lock.opens_iff _ _ _ _).1 hopens).2 lower hlower
  exact hgone ((s.board.mem_pieces_iff lower).2 ⟨f, hf⟩)

namespace Games

open Session Coord Relay

/-! ## Three pieces -/

def northEast : Coord := ⟨1, -1⟩

theorem inBounds_northEast (b : Board Piece) (h : b.radius = 1) : b.inBounds northEast = true := by
  rw [Board.inBounds_iff_mem, h]
  decide

/-- Quicksilver in the middle, and tin and salt beside it. -/
def tinBoard : Board Piece :=
  (((Board.empty 1).put origin (some (sigmar "quicksilver")) inBounds_origin_empty).put east
    (some (sigmar "tin")) (inBounds_east _ rfl)).put northEast (some (sigmar "salt"))
      (inBounds_northEast _ rfl)

theorem get?_tinBoard (c : Coord) :
    tinBoard.get? c =
      if c = northEast then some (sigmar "salt")
      else if c = east then some (sigmar "tin")
      else if c = origin then some (sigmar "quicksilver") else none := by
  rw [tinBoard, Board.get?_put, Board.get?_put, Board.get?_put, Board.get?_empty]

theorem pieces_tinBoard {p : Piece} (h : p ∈ tinBoard.pieces) :
    p ∈ ["quicksilver", "tin", "salt"].map sigmar := by
  obtain ⟨c, hc⟩ := (tinBoard.mem_pieces_iff p).1 h
  rw [get?_tinBoard] at hc
  split at hc
  · cases hc
    decide
  · split at hc
    · cases hc
      decide
    · split at hc <;> cases hc
      decide

theorem exists_piece_tinBoard {c : Coord} (hc : c ∈ [origin, east, northEast]) :
    ∃ p ∈ ["quicksilver", "tin", "salt"].map sigmar, tinBoard.get? c = some p := by
  simp only [get?_tinBoard]
  revert c
  decide

theorem openRunLength_tinBoard (catalog : Catalog) {c : Coord}
    (hc : c ∈ [origin, east, northEast]) :
    Context.openRunLength ⟨⟨catalog, tinBoard⟩, c⟩ = 4 := by
  rw [Context.openRunLength, Context.occupiedNeighbors]
  simp only [get?_tinBoard]
  revert c
  decide

/-- All three pieces can be taken. -/
theorem opens_tinBoard (catalog : Catalog) {c : Coord} (hc : c ∈ [origin, east, northEast])
    {p : Piece} (hp : p ∈ ["quicksilver", "tin", "salt"].map sigmar) (selected : List Piece) :
    alchemyLock.opens ⟨⟨catalog, tinBoard⟩, c⟩ selected p = true := by
  rw [Lock.opens_iff, openRunLength_tinBoard catalog hc]
  refine ⟨Nat.le_succ 3, fun q hq hmem => ?_⟩
  have hnot : ∀ p ∈ ["quicksilver", "tin", "salt"].map sigmar, ∀ q ∈ downgrades.get? p,
      q ∉ ["quicksilver", "tin", "salt"].map sigmar := by
    decide +kernel
  exact hnot p hp q hq (pieces_tinBoard hmem)

/-- A game on that board, with some cells selected. -/
def tinSession (d : Definition) (cells : List Coord) : Session := ⟨d.withBoard tinBoard, cells⟩

variable {d : Definition} (hfollows : d.Follows alchemySheet)

include hfollows

theorem isSelectable_tinSession (cells : List Coord) {c : Coord}
    (hc : c ∈ [origin, east, northEast]) : (tinSession d cells).isSelectable c = .ok true := by
  obtain ⟨p, hp, hget⟩ := exists_piece_tinBoard hc
  have hget' : (tinSession d cells).board.get? c = some p := hget
  have hlock : (tinSession d cells).definition.select.IsLock alchemyLock := hfollows.select
  rw [isSelectable_eq hlock hget']
  exact congrArg Except.ok (opens_tinBoard _ hc hp _)

/-- Quicksilver takes tin with it. -/
def tinReaction : Reaction := cleared [sigmar "quicksilver", sigmar "tin"]

/-- Each of the three pieces goes with another one. -/
theorem test_alone {p : Piece} (hp : p ∈ ["quicksilver", "tin", "salt"].map sigmar)
    (ctx : Context) : (d.rules.test ctx [p] Scope.empty).1 = .ok .pending := by
  have hpart : ∀ p ∈ ["quicksilver", "tin", "salt"].map sigmar,
      ∃ r ∈ RuleSet.reactionsOf alchemyTable, [p].Subperm r.taken ∧ 1 < r.taken.length := by
    decide +kernel
  have hnone : ∀ p ∈ ["quicksilver", "tin", "salt"].map sigmar,
      ∀ r ∈ RuleSet.reactionsOf alchemyTable, ¬ [p].Perm r.taken := by
    decide +kernel
  obtain ⟨r, hr, hsubperm, hlen⟩ := hpart p hp
  exact hfollows.rules.pending_of_part hr ⟨hsubperm, hlen⟩ (hnone p hp) ctx Scope.empty

theorem test_tin_quicksilver (ctx : Context) :
    ∃ m, (d.rules.test ctx [sigmar "tin", sigmar "quicksilver"] Scope.empty).1 =
      .ok (.success m) := by
  have hfree : RuleSet.OrderFree alchemyTable := orderFree_tables _ List.mem_cons_self
  have hr : tinReaction ∈ RuleSet.reactionsOf alchemyTable := by decide +kernel
  exact hfollows.rules.exists_success_of_perm hfree hr (List.Perm.swap _ _ _)

theorem click_east : (tinSession d []).click east = ⟨.ok .pending, tinSession d [east], []⟩ := by
  have hp : (tinSession d []).board.get? east = some (sigmar "tin") := get?_tinBoard east
  have hpending : (tinSession d []).testWith east (sigmar "tin") = .ok .pending :=
    test_alone hfollows (by decide) _
  rw [click_eq_clickOutcome (Board.inBounds_of_get? hp) List.not_mem_nil hp
    (isSelectable_tinSession hfollows [] (by decide)) hpending]
  rfl

theorem legal_east : (tinSession d [east]).Legal d := by
  have hclick := (legal_onBoard d tinBoard).click east
  have heq : (onBoard d tinBoard).click east = _ := click_east hfollows
  rwa [heq] at hclick

theorem click_origin :
    ∃ m, ((tinSession d [east]).click origin).status = .ok .success ∧
      (tinSession d [east]).Fires origin (sigmar "quicksilver") m
        ((tinSession d [east]).click origin).session ∧
      ∀ q ∈ m.replacements, q = none := by
  have hlegal := legal_east hfollows
  have hp : (tinSession d [east]).board.get? origin = some (sigmar "quicksilver") :=
    get?_tinBoard origin
  have hcandidates : (tinSession d [east]).candidates = [sigmar "tin"] :=
    List.filterMap_cons_some (get?_tinBoard east)
  obtain ⟨m, hm⟩ :=
    test_tin_quicksilver hfollows ((tinSession d [east]).definition.context origin)
  have htest : (tinSession d [east]).testWith origin (sigmar "quicksilver") = .ok (.success m) := by
    rw [testWith, hcandidates]
    exact hm
  have hselect := isSelectable_tinSession hfollows [east] (c := origin) List.mem_cons_self
  have hunselected : origin ∉ (tinSession d [east]).selected := by
    show origin ∉ [east]
    decide
  obtain ⟨hstatus, hfires⟩ := hlegal.fires hunselected hp htest
  have hnone := hlegal.replacements_of_clearing hfollows.rules clearing_alchemyTable htest
  rw [click_eq_clickOutcome (Board.inBounds_of_get? hp) hunselected hp hselect htest]
  exact ⟨m, hstatus, hfires, hnone⟩

omit hfollows

/-- Tin is clicked first, then quicksilver; there is no lead. -/
theorem tin_goes_without_lead : ∃ d, Definition.compile alchemy = .ok d ∧
    (onBoard d tinBoard).clicks [east] = tinSession d [east] ∧
    ((tinSession d [east]).click origin).status = .ok .success ∧
    tinBoard.get? east = some (sigmar "tin") ∧
    ((tinSession d [east]).click origin).session.board.get? east = none ∧
    downgrades.get? (sigmar "tin") = some (sigmar "lead") ∧
    ∀ f, tinBoard.get? f ≠ some (sigmar "lead") := by
  obtain ⟨d, hd, hfollows⟩ := exists_follows_alchemy
  obtain ⟨d', hd', -, -, horder⟩ := metals_go_in_order
  cases Except.ok.inj (hd.symm.trans hd')
  obtain ⟨m, hstatus, hfires, hnone⟩ := click_origin hfollows
  have hclick : (onBoard d tinBoard).click east = _ := click_east hfollows
  have hclicks : (onBoard d tinBoard).clicks [east] = tinSession d [east] := by
    rw [clicks, hclick]
    rfl
  have htin : tinBoard.get? east = some (sigmar "tin") := get?_tinBoard east
  have hcleared := hfires.get?_eq_none hnone (List.mem_append_left _ List.mem_cons_self)
  have hlower : downgrades.get? (sigmar "tin") = some (sigmar "lead") := by decide +kernel
  exact ⟨d, hd, hclicks, hstatus, htin, hcleared, hlower,
    horder tinBoard [east] _ hclicks origin east _ _ htin hcleared hlower⟩

end Games

end HexRules
