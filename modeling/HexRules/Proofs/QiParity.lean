import HexRules.Proofs.FullDeal
import HexRules.Proofs.GameTables
import HexRules.Proofs.PieceBalance
import HexRules.Proofs.RegisteredPieces

/-!
# The parity of qi

In the game `mofang` qi goes in pairs, and nothing becomes qi.  A deal puts one qi on the board, in
the middle, so there is always one left, and the game is never won.

    every reaction of the table takes an even number of qi and places none
                                                                         (even_taken_qi)
    a click keeps the parity of the number of qi                         (parity_clicks)
    a new game has one qi, in the middle                                 (count_qi_of_fresh)
-/

namespace HexRules

namespace Games

open RuleSet Session

def qi : Piece := mofang "qi"

/-! ## What is dealt -/

theorem bank_fivePhases (b : Board Piece) :
    (Definition.compileOn builtinFunctions builtinPredicates b fivePhases).map (fun d =>
        (d.radius, d.center, d.bank.keys.contains qi, d.bank.entries.map fun e => e.2)) =
      .ok (5, some qi, false, [5, 5, 5, 5, 5, 4, 4, 4, 4, 1, 1, 1]) := by
  cbv

/-- What the document says of dealing. -/
theorem dealt_of_compile {d : Definition} (h : Definition.compile fivePhases = .ok d) :
    d.radius = 5 ∧ d.center = some qi ∧ d.bank.keys.contains qi = false ∧
      d.bank.entries.map (fun e => e.2) = [5, 5, 5, 5, 5, 4, 4, 4, 4, 1, 1, 1] := by
  simpa only [Prod.mk.injEq] using eq_of_map_compile h (bank_fivePhases _)

/-- The centre is qi, and there is none in the bank. -/
structure OneQi (d : Definition) : Prop where
  center_eq : d.center = some qi
  count_bank : d.pieceBank.count qi = 0

theorem oneQi_of_compile {d : Definition} (h : Definition.compile fivePhases = .ok d) :
    OneQi d := by
  obtain ⟨-, hcenter, hkeys, -⟩ := dealt_of_compile h
  refine ⟨hcenter, List.count_eq_zero.2 fun hmem => ?_⟩
  have hsub : d.pieceBank ⊆ d.bank.keys :=
    Definition.pieceBank_subset fun e he => List.mem_map_of_mem he
  exact List.contains_iff_mem.not.1 (by rw [hkeys]; exact Bool.false_ne_true) (hsub hmem)

theorem length_pieceBank {d : Definition} (h : Definition.compile fivePhases = .ok d) :
    d.pieceBank.length = 44 := by
  obtain ⟨-, -, -, hcounts⟩ := dealt_of_compile h
  have hperm := List.mergeSort_perm d.bank.entries fun a b => a.1.le b.1
  rw [Definition.pieceBank, List.length_flatMap, (hperm.map _).sum_nat]
  simp only [List.length_replicate]
  rw [hcounts]
  rfl

variable {d : Definition} {s : Session}

theorem count_qi_of_fresh (hd : OneQi d) (h : s.Fresh d) :
    s.board.get? Coord.origin = some qi ∧ s.board.pieces.count qi = 1 := by
  refine ⟨h.laidOut.center_eq qi hd.center_eq, ?_⟩
  rw [h.laidOut.pieces_perm.count_eq, hd.center_eq, List.count_append, hd.count_bank]
  decide

/-! ## What clicks do -/

theorem even_taken_qi : ∀ r ∈ reactionsOf fivePhasesTable,
    r.taken.count qi % 2 = 0 ∧ r.placed.count qi = 0 := by
  decide +kernel

/-- A match takes an even number of qi, and none of its replacements is qi. -/
theorem even_qi_of_success (htable : d.rules.Tabulated fivePhasesTable) {ctx : Context}
    {candidates : List Piece} {u : Scope} {m : RuleMatch}
    (h : (d.rules.test ctx candidates u).1 = .ok (.success m)) :
    candidates.count qi % 2 = 0 ∧ some qi ∉ m.replacements := by
  obtain ⟨r, hr, hlen, hperm⟩ := htable.exists_reaction h
  obtain ⟨heven, hnone⟩ := even_taken_qi r hr
  obtain ⟨htaken, hplaced⟩ := Reaction.perm_of_zip hlen hperm
  rw [← htaken.count_eq] at heven
  rw [← hplaced.count_eq, List.count_eq_zero] at hnone
  exact ⟨heven, fun hmem => hnone (List.mem_filterMap.2 ⟨some qi, hmem, rfl⟩)⟩

theorem parity_clicks (h : s.Legal d) (htable : d.rules.Tabulated fivePhasesTable)
    (cs : List Coord) :
    (s.clicks cs).board.pieces.count qi % 2 = s.board.pieces.count qi % 2 := by
  induction cs generalizing s with
  | nil => rfl
  | cons c rest ih =>
    rw [clicks, ih (h.click c)]
    rcases h.exchange htable c with ⟨r, hr, -, hexchange⟩ | ⟨-, hboard⟩
    · obtain ⟨heven, hplaced⟩ := even_taken_qi r hr
      have hcount := hexchange.count_eq qi
      omega
    · rw [hboard]

/-- Where qi is left the board is not empty. -/
theorem isWon_eq_false (h : s.board.pieces.count qi % 2 = 1) : s.isWon = false := by
  have hmem : qi ∈ s.board.pieces := List.count_pos_iff.1 (by omega)
  obtain ⟨c, hc, hp⟩ := List.mem_filterMap.1 hmem
  rw [isWon, Board.isEmpty, List.all_eq_false]
  exact ⟨c, hc, by simp [hp]⟩

/-- A new game is not won, whatever is clicked. -/
theorem isWon_clicks_of_fresh (hd : OneQi d) (htable : d.rules.Tabulated fivePhasesTable)
    (h : s.Fresh d) (cs : List Coord) : (s.clicks cs).isWon = false := by
  have hlegal : s.Legal d := .of_selected_nil h.definition_eq h.selected_eq
  have hparity := parity_clicks hlegal htable cs
  rw [(count_qi_of_fresh hd h).2] at hparity
  exact isWon_eq_false hparity

end Games

/-- **The game `mofang` is never won.**  Its matches take an even number of qi and put none in the
place of what they take, so on every board clicks keep the parity of the number of qi.  A new game,
however it is dealt, has one qi, in the middle; so whatever is clicked, the board is not empty. -/
theorem five_phases_never_won : ∃ d, Definition.compile Games.fivePhases = .ok d ∧
    (∀ ctx candidates s m, (d.rules.test ctx candidates s).1 = .ok (.success m) →
      candidates.count Games.qi % 2 = 0 ∧ some Games.qi ∉ m.replacements) ∧
    (∀ (b : Board Piece) (cs : List Coord),
      ((Session.onBoard d b).clicks cs).board.pieces.count Games.qi % 2 =
        b.pieces.count Games.qi % 2) ∧
    (∀ {γ : Type} [Generator γ], Generator.Reorders γ → ∀ g : γ,
      (∃ s events, (Session.newGame d g).1 = .ok (s, events) ∧
        s.board.get? Coord.origin = some Games.qi ∧ s.board.pieces.count Games.qi = 1 ∧
        ∀ cs, (s.clicks cs).isWon = false) ∨
      ∃ e, (Session.newGame d g).1 = .error (.board e) ∧ e.family? = some .deal) ∧
    ∀ shared seed s events, (Session.spawnGame d shared seed).1 = .ok (s, events) →
      s.board.get? Coord.origin = some Games.qi ∧ s.board.pieces.count Games.qi = 1 ∧
        ∀ cs, (s.clicks cs).isWon = false := by
  obtain ⟨d, hd, htable⟩ := Games.exists_tabulated_of_profiles (Games.profiles_fivePhases _)
  have hone := Games.oneQi_of_compile hd
  have hnew : ∀ s : Session, s.Fresh d → s.board.get? Coord.origin = some Games.qi ∧
      s.board.pieces.count Games.qi = 1 ∧ ∀ cs, (s.clicks cs).isWon = false := by
    intro s hs
    obtain ⟨horigin, hcount⟩ := Games.count_qi_of_fresh hone hs
    exact ⟨horigin, hcount, Games.isWon_clicks_of_fresh hone htable hs⟩
  refine ⟨d, hd, fun ctx candidates s m hm => Games.even_qi_of_success htable hm,
    fun b cs => Games.parity_clicks (Session.legal_onBoard d b) htable cs, ?_, ?_⟩
  · intro γ _ hreorders g
    rcases Session.newGame_spec hreorders d g with ⟨s, events, hok, hfresh⟩ | herror
    · exact .inl ⟨s, events, hok, hnew s hfresh⟩
    · exact .inr herror
  · intro shared seed s events h
    exact hnew s (Session.fresh_of_spawnGame h)

namespace Games

open Deal Coord Session

/-! ## A deal -/

/-- Two draws over and over: the cell gets a piece, and the piece may lie alone. -/
def draws : Scripted := .start [0, 9 / 10] [] .keep

theorem newGame_draws {d : Definition} (h : Definition.compile fivePhases = .ok d) :
    ∃ s events, (newGame d draws).1 = .ok (s, events) := by
  obtain ⟨hradius, hcenter, -, -⟩ := dealt_of_compile h
  have hlength := length_pieceBank h
  have hfits : (d.pieceBank.length : Int) ≤ capacity d.radius d.center := by
    rw [hlength, hradius, hcenter]
    decide
  have hseed : d.pieceBank = [] ∨ d.center.isSome = true ∨ 2 ≤ d.radius := by
    rw [hcenter]
    exact .inr (.inl rfl)
  obtain ⟨dealt, hdeal⟩ : ∃ dealt,
      (deal d.pieceBank d.radius d.center defaultAttempts draws).1 = .ok dealt :=
    exists_deal (Scripted.alternates (le_refl (9 / 10))) ⟨rfl, rfl, rfl⟩ (by decide) hfits hseed
  refine ⟨onBoard d dealt.board, [.boardDealt d.pieceBank.length d.radius dealt.attempts], ?_⟩
  unfold newGame
  generalize deal d.pieceBank d.radius d.center defaultAttempts draws = r at hdeal
  obtain ⟨answer, g⟩ := r
  cases hdeal
  rfl

/-- Two qi go together, and the one of a deal stays. -/
theorem last_qi_stays : ∃ d, Definition.compile fivePhases = .ok d ∧
    (∃ m, (d.rules.test ⟨⟨d.game.catalog, Board.empty 5⟩, origin⟩ [qi, qi] Scope.empty).1 =
        .ok (.success m) ∧ [qi, qi].count qi % 2 = 0 ∧ some qi ∉ m.replacements) ∧
    Generator.Reorders Scripted ∧
    ∃ s events, (newGame d draws).1 = .ok (s, events) ∧ s.board.get? origin = some qi ∧
      s.board.pieces.count qi = 1 ∧ ∀ cs, (s.clicks cs).isWon = false := by
  obtain ⟨d, hd, heven, -, hnew, -⟩ := five_phases_never_won
  obtain ⟨d', hd', htable⟩ := exists_tabulated_of_profiles (profiles_fivePhases _)
  cases hd.symm.trans hd'
  obtain ⟨m, hm⟩ := htable.exists_success (r := cleared [qi, qi]) (by decide)
    ⟨⟨d.game.catalog, Board.empty 5⟩, origin⟩ Scope.empty
  obtain ⟨s, events, hs⟩ := newGame_draws hd
  refine ⟨d, hd, ⟨m, hm, heven _ _ _ _ hm⟩, Relay.reorders_scripted, s, events, hs, ?_⟩
  rcases hnew Relay.reorders_scripted draws with ⟨s', events', hs', hqi⟩ | ⟨e, he, -⟩
  · cases hs.symm.trans hs'
    exact hqi
  · cases hs.symm.trans he

end Games

end HexRules
