import HexRules.Proofs.BoardWrites
import HexRules.Proofs.Click
import HexRules.Proofs.RuleOrder

/-!
# Selections

Whatever has been clicked, the selected cells are distinct and hold pieces, and each was selected by
right: on the board as it is, the select condition holds there after the cells selected before it,
and the rules are pending on the pieces up to it.

    s.Legal d → (s.firstSelected k).Legal d                              (Legal.firstSelected)
    s.Legal d, and the rules are pending at c → s with c is Legal d      (Legal.append)
    s.Legal d, and a rule succeeds at c → s.clickOutcome c … fires       (Legal.fires)
    s.Legal d → (s.click c).session.Legal d                              (Legal.click)
-/

namespace HexRules

theorem filterMap_of_forall₂ {α β : Type} {f : α → Option β} {xs : List α} {ys : List β}
    (h : List.Forall₂ (fun x y => f x = some y) xs ys) : xs.filterMap f = ys := by
  induction h with
  | nil => rfl
  | cons hxy _ ih => rw [List.filterMap_cons_some hxy, ih]

theorem exists_of_mem_forall₂ {α β : Type} {R : α → β → Prop} {xs : List α} {ys : List β}
    (h : List.Forall₂ R xs ys) {x : α} (hx : x ∈ xs) : ∃ y ∈ ys, R x y := by
  induction h with
  | nil => cases hx
  | cons hxy _ ih =>
    rcases List.mem_cons.1 hx with rfl | hx
    · exact ⟨_, List.mem_cons_self, hxy⟩
    · obtain ⟨y, hy, hr⟩ := ih hx
      exact ⟨y, List.mem_cons_of_mem _ hy, hr⟩

theorem getElem?_of_take {α : Type} {xs : List α} {k j : Nat} {x : α}
    (h : (xs.take k)[j]? = some x) : j < k ∧ xs[j]? = some x := by
  rw [List.getElem?_take] at h
  by_cases hj : j < k
  · rw [if_pos hj] at h
    exact ⟨hj, h⟩
  · rw [if_neg hj] at h
    cases h

/-- The last element of a list, or one before it. -/
theorem getElem?_of_append {α : Type} {xs : List α} {x y : α} {j : Nat}
    (h : (xs ++ [x])[j]? = some y) : xs[j]? = some y ∨ j = xs.length ∧ x = y := by
  by_cases hj : j < xs.length
  · rw [List.getElem?_append_left hj] at h
    exact .inl h
  · rw [List.getElem?_append_right (by omega), List.getElem?_singleton] at h
    by_cases hlast : j - xs.length = 0
    · rw [if_pos hlast] at h
      exact .inr ⟨by omega, Option.some.inj h⟩
    · rw [if_neg hlast] at h
      cases h

namespace Session

/-- A session whose selection the select condition and the rules of `d` have allowed. -/
structure Legal (d : Definition) (s : Session) : Prop where
  definition_eq : s.definition = d.withBoard s.board
  nodup : s.selected.Nodup
  inBounds : ∀ c ∈ s.selected, s.board.inBounds c = true
  /-- One candidate for every selected cell, in order. -/
  holds : List.Forall₂ (fun c p => s.board.get? c = some p) s.selected s.candidates
  selectable : ∀ (k : Nat) (c : Coord) (p : Piece),
    s.selected[k]? = some c → s.candidates[k]? = some p →
      s.definition.select.eval (s.definition.context c)
        (Scope.ofBindings [(selfName, .piece (some p)),
          (selectedName, .array ((s.candidates.take k).map fun q => .piece (some q)))]) =
        .ok (.bool true)
  pending : ∀ (k : Nat) (c : Coord), s.selected[k]? = some c →
    (s.definition.rules.test (s.definition.context c) (s.candidates.take (k + 1))
      Scope.empty).1 = .ok .pending

/-- What a click does when a rule succeeds on the pieces that are selected and one more, `p`. -/
structure Fires (s : Session) (c : Coord) (p : Piece) (m : RuleMatch) (s' : Session) : Prop where
  definition_eq : s'.definition = s.definition.withBoard s'.board
  selected : s'.selected = []
  /-- The pieces that the rules were tested on. -/
  held : List.Forall₂ (fun d q => s.board.get? d = some q) (s.selected ++ [c])
    (s.candidates ++ [p])
  replaced : List.Forall₂ (fun d q => s'.board.get? d = q) (s.selected ++ [c]) m.replacements
  others : ∀ d, d ∉ s.selected ++ [c] → s'.board.get? d = s.board.get? d

/-- A select condition that allows a cell has the value true in the scope of the piece there and of
the pieces selected before it. -/
theorem eval_select {s : Session} {c : Coord} {p : Piece} (hp : s.board.get? c = some p)
    (h : s.isSelectable c = .ok true) :
    s.definition.select.eval (s.definition.context c)
      (Scope.ofBindings [(selfName, .piece (some p)),
        (selectedName, .array (s.candidates.map fun q => .piece (some q)))]) =
      .ok (.bool true) := by
  rw [isSelectable, hp] at h
  obtain ⟨v, hv, htrue⟩ := exists_of_bind_ok h
  cases v with
  | bool b =>
    cases htrue
    exact hv
  | _ => cases htrue

/-! ## What a click preserves -/

namespace Legal

variable {d : Definition} {s : Session} {c : Coord} {p : Piece}

/-- With nothing selected there is nothing to allow. -/
theorem of_selected_nil (hd : s.definition = d.withBoard s.board) (hs : s.selected = []) :
    s.Legal d where
  definition_eq := hd
  nodup := by simp [hs]
  inBounds := by simp [hs]
  holds := by simp [candidates, hs]
  selectable := by simp [hs]
  pending := by simp [hs]

theorem firstSelected (h : s.Legal d) (k : Nat) : (s.firstSelected k).Legal d := by
  have hholds : List.Forall₂ (fun c p => s.board.get? c = some p) (s.selected.take k)
      (s.candidates.take k) := List.forall₂_take k h.holds
  have hcandidates : (s.firstSelected k).candidates = s.candidates.take k :=
    filterMap_of_forall₂ hholds
  refine ⟨h.definition_eq, h.nodup.sublist (List.take_sublist k _),
    fun c hc => h.inBounds c (List.mem_of_mem_take hc), ?_, ?_, ?_⟩
  · rw [hcandidates]
    exact hholds
  · intro j c p hc hp
    rw [hcandidates] at hp ⊢
    obtain ⟨hj, hc⟩ := getElem?_of_take hc
    rw [List.take_take, Nat.min_eq_left (Nat.le_of_lt hj)]
    exact h.selectable j c p hc (getElem?_of_take hp).2
  · intro j c hc
    obtain ⟨hj, hc⟩ := getElem?_of_take hc
    rw [hcandidates, List.take_take, Nat.min_eq_left hj]
    exact h.pending j c hc

/-- The cells of a session and one more that holds a piece. -/
theorem held (h : s.Legal d) (hp : s.board.get? c = some p) :
    List.Forall₂ (fun c p => s.board.get? c = some p) (s.selected ++ [c])
      (s.candidates ++ [p]) :=
  List.rel_append h.holds (.cons hp .nil)

theorem nodup_append (h : s.Legal d) (hc : c ∉ s.selected) : (s.selected ++ [c]).Nodup := by
  rw [List.nodup_append_comm]
  exact List.nodup_cons.2 ⟨hc, h.nodup⟩

theorem inBounds_append (h : s.Legal d) (hp : s.board.get? c = some p) :
    ∀ e ∈ s.selected ++ [c], s.board.inBounds e = true := by
  intro e he
  rcases List.mem_append.1 he with he | he
  · exact h.inBounds e he
  · rw [List.mem_singleton.1 he]
    exact Board.inBounds_of_get? hp

/-- A cell is selected after all others when it may be selected and the rules are pending. -/
theorem append (h : s.Legal d) (hc : c ∉ s.selected) (hp : s.board.get? c = some p)
    (hselect : s.isSelectable c = .ok true) (hpending : s.testWith c p = .ok .pending) :
    Legal d { s with selected := s.selected ++ [c] } := by
  have hlen := h.holds.length_eq
  have hcandidates : candidates { s with selected := s.selected ++ [c] } = s.candidates ++ [p] :=
    filterMap_of_forall₂ (h.held hp)
  refine ⟨h.definition_eq, h.nodup_append hc, h.inBounds_append hp, ?_, ?_, ?_⟩
  · rw [hcandidates]
    exact h.held hp
  · intro k e q he hq
    rw [hcandidates] at hq ⊢
    -- a cell selected before, or the one that is added
    rcases getElem?_of_append he with he | ⟨rfl, rfl⟩
    · have hk : k < s.selected.length := (List.getElem?_eq_some_iff.1 he).1
      rw [List.getElem?_append_left (by omega)] at hq
      rw [List.take_append_of_le_length (by omega)]
      exact h.selectable k e q he hq
    · rw [hlen, List.getElem?_append_right (Nat.le_refl _), Nat.sub_self] at hq
      cases hq
      rw [List.take_left' hlen.symm]
      exact eval_select hp hselect
  · intro k e he
    rw [hcandidates]
    rcases getElem?_of_append he with he | ⟨rfl, rfl⟩
    · have hk : k < s.selected.length := (List.getElem?_eq_some_iff.1 he).1
      rw [List.take_append_of_le_length (by omega)]
      exact h.pending k e he
    · have hall : (s.candidates ++ [p]).length = s.selected.length + 1 := by
        rw [List.length_append, hlen, List.length_singleton]
      rw [List.take_of_length_le (Nat.le_of_eq hall)]
      exact hpending

/-- A rule that succeeds has a replacement for every cell, so all of them can be written. -/
theorem fires (h : s.Legal d) (hc : c ∉ s.selected) (hp : s.board.get? c = some p)
    {m : RuleMatch} (hm : s.testWith c p = .ok (.success m)) :
    (s.clickOutcome c (.success m)).status = .ok .success ∧
      s.Fires c p m (s.clickOutcome c (.success m)).session := by
  obtain ⟨rule, rs, -, -, -, hreplacements⟩ := RuleSet.test_of_testFrom hm
  have hheld := h.held hp
  have hlen : (s.selected ++ [c]).length = m.replacements.length := by
    rw [hreplacements, RuleSet.length_inOrder, hheld.length_eq]
  obtain ⟨b, hok, hreplaced, hothers⟩ := replaceAll_zip _ m.replacements s.board hlen
    (h.inBounds_append hp) (h.nodup_append hc)
  have hclick : s.clickOutcome c (.success m) =
      ⟨.ok .success, { s.withBoard b with selected := [] },
        [.ruleMatched m.rule (s.candidates.length + 1), .ruleApplied (s.selected ++ [c])]⟩ := by
    simp only [clickOutcome, hok]
  rw [hclick]
  exact ⟨rfl, rfl, rfl, hheld, hreplaced, hothers⟩

theorem click (h : s.Legal d) (c : Coord) : (s.click c).session.Legal d := by
  have hcases := s.clicksTo_click c
  generalize s.click c = r at hcases
  cases hcases with
  | outside => exact h
  | deselected => exact h.firstSelected _
  | cleared => exact h.firstSelected 0
  | selectRaised => exact h
  | refused => exact h
  | ruleRaised => exact h
  | tested p o hc hp hselect ho =>
    cases o with
    | success m =>
      have hfires := (h.fires hc hp ho).2
      refine of_selected_nil ?_ hfires.selected
      rw [hfires.definition_eq, h.definition_eq]
      rfl
    | pending => exact h.append hc hp hselect ho
    | failure => exact h

theorem clicks (h : s.Legal d) (cs : List Coord) : (s.clicks cs).Legal d := by
  induction cs generalizing s with
  | nil => exact h
  | cons c rest ih => exact ih (h.click c)

end Legal

/-- The selection grows only by a cell that can be selected while the rules are pending. -/
theorem Legal.selected_click_iff {d : Definition} {s : Session} (h : s.Legal d) (c : Coord) :
    (s.click c).session.selected = s.selected ++ [c] ↔
      c ∉ s.selected ∧ ∃ p, s.board.get? c = some p ∧ s.isSelectable c = .ok true ∧
        s.testWith c p = .ok .pending := by
  constructor
  · intro hgrows
    have hlen := congrArg List.length hgrows
    rw [List.length_append, List.length_singleton] at hlen
    clear hgrows
    have hcases := s.clicksTo_click c
    generalize s.click c = r at hcases hlen
    have hsame : s.selected.length ≠ s.selected.length + 1 := by omega
    have htake : ∀ k, (s.selected.take k).length ≠ s.selected.length + 1 := by
      intro k
      rw [List.length_take]
      omega
    -- in all ways but one the selection gets no longer
    cases hcases with
    | outside | selectRaised | refused | ruleRaised => exact absurd hlen hsame
    | deselected => exact absurd hlen (htake _)
    | cleared => exact absurd hlen (htake 0)
    | tested p o hc hp hselect ho =>
      cases o with
      | success m =>
        rw [(h.fires hc hp ho).2.selected] at hlen
        cases hlen
      | pending => exact ⟨hc, p, hp, hselect, ho⟩
      | failure => exact absurd hlen hsame
  · rintro ⟨hc, p, hp, hselect, ho⟩
    rw [click_eq_clickOutcome (Board.inBounds_of_get? hp) hc hp hselect ho]
    rfl

theorem legal_onBoard (d : Definition) (b : Board Piece) : (onBoard d b).Legal d :=
  .of_selected_nil rfl rfl

end Session

/-- **The selection is legal.**  A session that starts with nothing selected has, after any clicks,
distinct selected cells that are on the board and hold a piece each.  On the board as it is then,
the select condition is true at every selected cell, given its piece and the pieces selected before
it, and the rules are pending on the pieces up to it.  The next cell that is selected is one for
which the same holds, and every such cell can be selected. -/
theorem selection_legal (d : Definition) (b : Board Piece) (cs : List Coord) (s : Session)
    (hs : (Session.onBoard d b).clicks cs = s) :
    s.Legal d ∧
    ∀ c, (s.click c).session.selected = s.selected ++ [c] ↔
      c ∉ s.selected ∧ ∃ p, s.board.get? c = some p ∧ s.isSelectable c = .ok true ∧
        s.testWith c p = .ok .pending := by
  have hlegal : s.Legal d := hs ▸ (Session.legal_onBoard d b).clicks cs
  exact ⟨hlegal, hlegal.selected_click_iff⟩

namespace Relay

def east : Coord := ⟨1, 0⟩

theorem inBounds_east (b : Board Piece) (h : b.radius = 1) : b.inBounds east = true := by
  rw [Board.inBounds_iff_mem, h]
  decide

/-- The red piece in the middle and the blue one east of it. -/
def board : Board Piece :=
  ((Board.empty 1).put Coord.origin (some red) (Board.inBounds_origin _)).put east (some blue)
    (inBounds_east _ rfl)

/-- The first piece goes, and stands in for the second. -/
def handOver : Chain :=
  ⟨⟨.search [.member [red, blue] (some "first"), .literal blue], none,
    [.const .empty, .binding "first"], rfl⟩, []⟩

/-- Red comes first. -/
def redFirst : Expression :=
  .any [.equal [.binding "self", .const (.piece (some red))],
    .equal [.binding "selected", .const (.array [.piece (some red)])]]

def game : Definition :=
  ⟨⟨Catalog.empty "relay", board⟩, ⟨[handOver]⟩, redFirst, 1, none, Table.empty⟩

theorem get?_origin : board.get? Coord.origin = some red := by
  rw [board, Board.get?_put, Board.get?_put]
  rfl

theorem get?_east : board.get? east = some blue := by
  rw [board, Board.get?_put]
  rfl

theorem test_red (ctx : Context) :
    (game.rules.test ctx [red] Scope.empty).1 = .ok .pending := by
  simp only [RuleSet.test, RuleSet.testFrom, game, Chain.test, Scope.frame, Chain.matchAll,
    Chain.walk, Chain.links, handOver, Matcher.test, Matcher.testSearch, Matcher.searchSlots,
    Matcher.searchCandidates, Assignment.assign_eq_place]
  rfl

theorem test_red_blue (ctx : Context) :
    (game.rules.test ctx [red, blue] Scope.empty).1 = .ok (.success ⟨0, [none, some red]⟩) := by
  simp only [RuleSet.test, RuleSet.testFrom, game, Chain.test, Scope.frame, Chain.matchAll,
    Chain.walk, Chain.links, handOver, Matcher.test, Matcher.testSearch, Matcher.searchSlots,
    Assignment.assign_eq_place]
  rfl

/-- The red piece has been selected. -/
def redSelected : Session := ⟨game, [Coord.origin]⟩

theorem clicks_origin : (Session.onBoard game board).clicks [Coord.origin] = redSelected := by
  have hp : (Session.onBoard game board).board.get? Coord.origin = some red := get?_origin
  have hselect : (Session.onBoard game board).isSelectable Coord.origin = .ok true := by
    rw [Session.isSelectable, hp]
    rfl
  have hm : (Session.onBoard game board).testWith Coord.origin red = .ok .pending :=
    test_red (game.context Coord.origin)
  rw [Session.clicks, Session.click_eq_clickOutcome (Board.inBounds_of_get? hp) List.not_mem_nil
    hp hselect hm]
  rfl

theorem candidates_redSelected : redSelected.candidates = [red] :=
  List.filterMap_cons_some get?_origin

/-- With the red piece selected the selection is legal, and it is not empty. -/
theorem legal_red :
    redSelected.Legal game ∧ redSelected.selected = [Coord.origin] ∧
      redSelected.candidates = [red] := by
  obtain ⟨hlegal, -⟩ := selection_legal game board [Coord.origin] redSelected clicks_origin
  exact ⟨hlegal, rfl, candidates_redSelected⟩

end Relay

end HexRules
