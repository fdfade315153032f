import HexRules.Document.Build
import HexRules.Proofs.ClickEffect
import HexRules.Proofs.DealtBoard
import HexRules.Proofs.RegisteredPieces

/-!
# The closed world of a game

A piece can come onto the board as a result of a rule, and in no other way.  A result is evaluated in
a scope where slots have bound the pieces that they took, which lay on the board, or partners of
those in mappings of the game; all else is written in the result itself.  So where a board starts
with registered pieces it keeps to them, however it is clicked.

    Passes ctx links indexed s matched u, candidates and links within `ps` →
      what is bound in u has pieces of `ps` only                         (Passes.over_get?)
    t.test ctx candidates Scope.empty succeeds with m, rules within `ps` →
      ∀ q ∈ m.replacements, ∀ p ∈ q, p ∈ ps                              (mem_of_replacements)
    d.Registered → s.Legal d → registered pieces stay registered         (pieces_click)
-/

namespace HexRules

open Deal

variable {ps : List Piece}

/-! ## Bindings -/

/-- The pieces in the value are among `ps`. -/
abbrev Value.Among (ps : List Piece) : Value → Prop := Value.Over (· ∈ ps)

theorem among_of_mem_pieceBinding {name : Option String} {p : Piece} {b : Binding}
    (hb : b ∈ Predicate.pieceBinding name p) (hp : p ∈ ps) : b.2.Among ps := by
  obtain ⟨n, -, rfl⟩ := List.mem_map.1 hb
  exact Value.over_piece fun p' hp' => Option.some.inj hp' ▸ hp

theorem among_of_mem_binds {q : Predicate} {p : Piece} {b : Binding} (hq : q.partners ⊆ ps)
    (hp : p ∈ ps) (hb : b ∈ q.binds p) : b.2.Among ps := by
  cases q with
  | literal wanted => cases hb
  | member members bind => exact among_of_mem_pieceBinding hb hp
  | key table bindKey bindValue =>
    rcases List.mem_append.1 hb with hb | hb
    · exact among_of_mem_pieceBinding hb hp
    · obtain ⟨value, hvalue, hb⟩ := List.mem_flatMap.1 hb
      have hentry := (table.get?_eq_some_iff p value).1 (Option.mem_toList.1 hvalue)
      exact among_of_mem_pieceBinding hb (hq (List.mem_map_of_mem hentry))

theorem among_of_mem_slotBindings {slots : List Slot} {pieces : List Piece} {b : Binding}
    (hslots : ∀ slot ∈ slots, slot.predicate.partners ⊆ ps) (hpieces : pieces ⊆ ps)
    (hb : b ∈ slotBindings slots pieces) : b.2.Among ps := by
  rw [slotBindings, ← List.map_uncurry_zip_eq_zipWith] at hb
  obtain ⟨part, hpart, hb⟩ := List.mem_flatten.1 hb
  obtain ⟨pair, hpair, rfl⟩ := List.mem_map.1 hpart
  obtain ⟨hslot, hpiece⟩ := List.of_mem_zip hpair
  exact among_of_mem_binds (hslots _ hslot) (hpieces hpiece) hb

/-! ## Replacements -/

namespace Chain

variable {c : Chain} {ctx : Context} {candidates : List Piece} {s : Scope}

theorem partners_of_mem_slots {links : List Link} (h : ∀ l ∈ links, l.Within ps) :
    ∀ slot ∈ links.flatMap Link.slots, slot.predicate.partners ⊆ ps := by
  intro slot hslot
  obtain ⟨l, hl, hslot⟩ := List.mem_flatMap.1 hslot
  refine (h l hl).partners _ ?_
  rw [← l.map_predicate_slots]
  exact List.mem_map_of_mem hslot

theorem Passes.over_get? {links : List Link} {indexed : List (Nat × Piece)} {u : Scope}
    {matched : List Matched} (hpasses : Passes ctx links indexed s matched u)
    (hlinks : ∀ l ∈ links, l.Within ps) (hindexed : ∀ e ∈ indexed, e.2 ∈ ps)
    (hs : ∀ n v, s.get? n = some v → v.Among ps) (n : String) (v : Value)
    (hv : u.get? n = some v) : v.Among ps := by
  obtain ⟨pieces, hindices, -, hscope⟩ := pieces_of_passes hpasses
  have hpieces : pieces ⊆ ps := by
    intro p hp
    obtain ⟨index, -, hmem⟩ := exists_of_mem_forall₂ hindices.flip hp
    exact hindexed (index, p) hmem
  rw [hscope] at hv
  rcases Option.or_eq_some_iff.1 hv with hfound | ⟨-, hbefore⟩
  · have hb := List.mem_reverse.1 (mem_of_findEntry hfound)
    exact among_of_mem_slotBindings (partners_of_mem_slots hlinks) hpieces hb
  · exact hs n v hbefore

/-- Errors aside, a test ends with pieces of `ps`. -/
theorem Within.mem_of_test (h : c.Within ps) (hcandidates : candidates ⊆ ps)
    (hs : ∀ n v, s.get? n = some v → v.Among ps) {rs : List Replacement}
    (hrs : (c.test ctx candidates s).1 = .ok (.success rs)) :
    ∀ r ∈ rs, ∀ p ∈ r.2, p ∈ ps := by
  have hends : Yields (fun o => ∀ rs, o = .success rs → ∀ r ∈ rs, ∀ p ∈ r.2, p ∈ ps)
      (c.test ctx candidates s).1 := by
    refine test_ends (R := fun q => ∀ p ∈ q, p ∈ ps) (yields_true _) ?_
    intro matched u hpasses l hl e he
    have hindexed : ∀ entry ∈ candidates.zipIdx.map Prod.swap, entry.2 ∈ ps := by
      intro entry hentry
      obtain ⟨pair, hpair, rfl⟩ := List.mem_map.1 hentry
      exact hcandidates (List.mem_of_getElem? (List.mem_zipIdx_iff_getElem?.1 hpair))
    have hbound := hpasses.over_get? h hindexed hs
    have hsupplied : Supplied u (· ∈ ps) (fun _ => True) e.names e.pieces :=
      ⟨fun n _ v hv => hbound n v hv, fun _ _ _ => trivial, fun p hp => (h l hl).results e he hp⟩
    exact (e.replacement_ends hsupplied).imp (fun _ h => h) fun _ _ => trivial
  exact hends.of_ok hrs rs rfl

end Chain

theorem RuleSet.mem_of_replacements {t : RuleSet} {ctx : Context} {candidates : List Piece}
    (h : ∀ c ∈ t.rules, c.Within ps) (hcandidates : candidates ⊆ ps) {m : RuleMatch}
    (hm : (t.test ctx candidates Scope.empty).1 = .ok (.success m)) :
    ∀ q ∈ m.replacements, ∀ p ∈ q, p ∈ ps := by
  obtain ⟨c, rs, -, hc, hrs, hreplacements⟩ := test_of_testFrom hm
  have hunbound : ∀ n v, Scope.empty.get? n = some v → v.Among ps := fun n v hv => by cases hv
  have hmem := (h c (List.mem_of_getElem? hc)).mem_of_test hcandidates hunbound hrs
  intro q hq p hp
  rw [hreplacements] at hq
  obtain ⟨index, -, rfl⟩ := List.mem_map.1 hq
  cases hfound : findEntry index rs with
  | none =>
    rw [hfound] at hp
    cases hp
  | some q =>
    rw [hfound] at hp
    exact hmem (index, q) (mem_of_findEntry hfound) p hp

/-! ## Boards -/

namespace Session

variable {d : Definition} {s s' : Session} {c : Coord}

theorem candidates_subset (s : Session) : s.candidates ⊆ s.board.pieces := by
  intro p hp
  obtain ⟨c, -, hc⟩ := List.mem_filterMap.1 hp
  exact (s.board.mem_pieces_iff p).2 ⟨c, hc⟩

/-- A cell shows a replacement or what it showed before. -/
theorem Fires.pieces_subset {p : Piece} {m : RuleMatch} (h : s.Fires c p m s')
    (hm : ∀ q ∈ m.replacements, ∀ p ∈ q, p ∈ ps) (hs : s.board.pieces ⊆ ps) :
    s'.board.pieces ⊆ ps := by
  intro x hx
  obtain ⟨e, he⟩ := (s'.board.mem_pieces_iff x).1 hx
  by_cases hmem : e ∈ s.selected ++ [c]
  · obtain ⟨q, hq, hreplaced⟩ := exists_of_mem_forall₂ h.replaced hmem
    exact hm q hq x (hreplaced.symm.trans he)
  · rw [h.others e hmem] at he
    exact hs ((s.board.mem_pieces_iff x).2 ⟨e, he⟩)

namespace Legal

/-- What a click preserves. -/
theorem pieces_click (h : s.Legal d) (hd : d.Registered)
    (hs : s.board.pieces ⊆ d.game.catalog.pieces) (c : Coord) :
    (s.click c).session.board.pieces ⊆ d.game.catalog.pieces := by
  have heffect := h.effect c
  generalize (s.click c).status = status, (s.click c).session = s' at heffect
  cases heffect with
  | success p m s' hp hm hfires =>
    -- Only a success writes; the rules were tested on pieces that lie on the board.
    rw [testWith, h.definition_eq] at hm
    have hp' : p ∈ s.board.pieces := (s.board.mem_pieces_iff p).2 ⟨c, hp⟩
    have hcandidates : s.candidates ++ [p] ⊆ d.game.catalog.pieces :=
      List.append_subset.2 ⟨List.Subset.trans s.candidates_subset hs,
        List.cons_subset.2 ⟨hs hp', List.nil_subset _⟩⟩
    exact hfires.pieces_subset (RuleSet.mem_of_replacements hd.rules hcandidates hm) hs
  | _ => exact hs

/-- The induction is on the clicks. -/
theorem pieces_clicks (h : s.Legal d) (hd : d.Registered)
    (hs : s.board.pieces ⊆ d.game.catalog.pieces) (cs : List Coord) :
    (s.clicks cs).board.pieces ⊆ d.game.catalog.pieces := by
  induction cs generalizing s with
  | nil => exact hs
  | cons c rest ih => exact ih (h.click c) (h.pieces_click hd hs c)

end Legal

end Session

/-- A deal puts the bank and the centre piece on the board, which are registered. -/
theorem Deal.LaidOut.pieces_subset {d : Definition} {b : Board Piece}
    (h : Deal.LaidOut d.radius d.center d.pieceBank b) (hd : d.Registered) :
    b.pieces ⊆ d.game.catalog.pieces := by
  intro p hp
  rcases List.mem_append.1 (h.pieces_perm.mem_iff.1 hp) with hp | hp
  · exact hd.center p (Option.mem_toList.1 hp)
  · exact hd.bank hp

/-- **The world of a game is closed.**  Take a game that has been compiled, whatever functions and
predicates are registered.  On a board that holds registered pieces only, every sequence of clicks
leaves registered pieces only; and a deal from the game's bank and centre gives such a board,
whatever is drawn. -/
theorem board_stays_registered {functions : Registry FunctionBuilder}
    {predicates : Registry PredicateKind} {b₀ : Board Piece} {doc : GameDocument} {d : Definition}
    (h : Definition.compileOn functions predicates b₀ doc = .ok d) :
    (∀ (b : Board Piece) (cs : List Coord), b.pieces ⊆ d.game.catalog.pieces →
      ((Session.onBoard d b).clicks cs).board.pieces ⊆ d.game.catalog.pieces) ∧
    ∀ {γ : Type} [Generator γ], Generator.Reorders γ → ∀ (maxAttempts : Int) (g : γ)
      (dealt : Dealt Piece), (deal d.pieceBank d.radius d.center maxAttempts g).1 = .ok dealt →
        dealt.board.pieces ⊆ d.game.catalog.pieces := by
  have hd : d.Registered := (Definition.yields_compileOn functions predicates b₀ doc).of_ok h
  constructor
  · intro b cs hb
    exact (Session.legal_onBoard d b).pieces_clicks hd hb cs
  · intro γ _ hreorders maxAttempts g dealt hdealt
    rcases Deal.deal_spec hreorders d.pieceBank d.radius d.center maxAttempts g with
      ⟨dealt', hok, hlaidOut⟩ | ⟨e, herror, -⟩
    · cases hdealt.symm.trans hok
      exact hlaidOut.pieces_subset hd
    · cases hdealt.symm.trans herror

namespace Relay

/-- A game where a red piece turns blue. -/
def turning : GameDocument where
  id := "relay"
  nodes := ["red", "blue"]
  tags := []
  mappings := [("turns", [("red", "blue")])]
  select := .bool true
  rules := [Build.rule [Build.key "turns" (some "next")] none (some [Build.bound "next"])]
  radius := 1
  center := some "red"
  bank := [("blue", 1)]

theorem pieces_turning :
    (Definition.compile turning).toOption.map (fun d => d.game.catalog.pieces) =
      some [red, blue] := by
  decide +kernel

theorem pieces_board : board.pieces ⊆ [red, blue] := by
  intro p hp
  obtain ⟨c, hc⟩ := (board.mem_pieces_iff p).1 hp
  rw [board, Board.get?_put, Board.get?_put, Board.get?_empty] at hc
  split at hc
  · cases hc
    decide
  · split at hc <;> cases hc
    decide

/-- However red and blue are clicked, and however the game is dealt, there is nothing but red and
blue. -/
theorem red_and_blue_only : ∃ d, Definition.compile turning = .ok d ∧
    d.game.catalog.pieces = [red, blue] ∧ Generator.Reorders Scripted ∧
    (∀ cs, ((Session.onBoard d board).clicks cs).board.pieces ⊆ d.game.catalog.pieces) ∧
    ∀ dealt, (deal d.pieceBank d.radius d.center 5 draws).1 = .ok dealt →
      dealt.board.pieces ⊆ d.game.catalog.pieces := by
  have hpieces := pieces_turning
  cases hd : Definition.compile turning with
  | error e =>
    rw [hd] at hpieces
    cases hpieces
  | ok d =>
    rw [hd] at hpieces
    have hpieces : d.game.catalog.pieces = [red, blue] := Option.some.inj hpieces
    obtain ⟨hclicks, hdeal⟩ := board_stays_registered hd
    exact ⟨d, rfl, hpieces, reorders_scripted,
      fun cs => hclicks board cs (hpieces.symm ▸ pieces_board), hdeal reorders_scripted 5 draws⟩

end Relay

end HexRules
