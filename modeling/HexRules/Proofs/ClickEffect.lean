import HexRules.Proofs.Selection

/-!
# The effect of a click

A click that raises an error or is rejected changes nothing; a click that is pending changes the
selection only.  A success puts on the selected cells and on the clicked one the replacements of the
pieces that stood there, and no write fails.

    s.Legal d → Effect s c (s.click c).status (s.click c).session        (Legal.effect)
    s.Legal d → (s.clicks cs).board.occupied ⊆ s.board.occupied          (Legal.occupied_clicks)
-/

namespace HexRules

namespace Session

/-- What a click on the cell `c` changes, by its status. -/
inductive Effect (s : Session) (c : Coord) : Except Error Status → Session → Prop
  | outside (hin : s.board.inBounds c = false) : Effect s c (.error (.board (.outside c))) s
  | selectRaised (e : EvalError) (he : s.isSelectable c = .error e) :
    Effect s c (.error (.eval e)) s
  | ruleRaised (p : Piece) (e : EvalError) (hp : s.board.get? c = some p)
      (he : s.testWith c p = .error e) :
    Effect s c (.error (.eval e)) s
  | pending (cells : List Coord) : Effect s c (.ok .pending) { s with selected := cells }
  | failure : Effect s c (.ok .failure) s
  | success (p : Piece) (m : RuleMatch) (s' : Session) (hp : s.board.get? c = some p)
      (hm : s.testWith c p = .ok (.success m)) (hfires : s.Fires c p m s') :
    Effect s c (.ok .success) s'

/-- The cells that are written hold a piece already. -/
theorem Fires.isSome_of_isSome {s s' : Session} {c e : Coord} {p : Piece} {m : RuleMatch}
    (h : s.Fires c p m s') (he : (s'.board.get? e).isSome = true) :
    (s.board.get? e).isSome = true := by
  by_cases hmem : e ∈ s.selected ++ [c]
  · obtain ⟨q, -, hq⟩ := exists_of_mem_forall₂ h.held hmem
    rw [hq]
    rfl
  · rw [← h.others e hmem]
    exact he

theorem Effect.occupied_subset {s s' : Session} {c : Coord} {status : Except Error Status}
    (h : Effect s c status s') : s'.board.occupied ⊆ s.board.occupied := by
  cases h with
  | success p m s' hp hm hfires =>
    intro e he
    rw [Board.mem_occupied_iff] at he ⊢
    exact hfires.isSome_of_isSome he
  | _ => exact List.Subset.refl _

namespace Legal

variable {d : Definition} {s : Session} {c : Coord} {p : Piece}

theorem effect (h : s.Legal d) (c : Coord) : Effect s c (s.click c).status (s.click c).session := by
  have hcases := s.clicksTo_click c
  generalize s.click c = r at hcases
  cases hcases with
  | outside hin => exact .outside hin
  | deselected => exact .pending _
  | cleared => exact .pending _
  | selectRaised p e hc hp he => exact .selectRaised e he
  | refused => exact .failure
  | ruleRaised p e hc hp hselect he => exact .ruleRaised p e hp he
  | tested p o hc hp hselect ho =>
    cases o with
    | success m =>
      obtain ⟨hstatus, hfires⟩ := h.fires hc hp ho
      rw [hstatus]
      exact .success p m _ hp ho hfires
    | pending => exact .pending _
    | failure => exact .failure

theorem occupied_clicks (h : s.Legal d) (cs : List Coord) :
    (s.clicks cs).board.occupied ⊆ s.board.occupied := by
  induction cs generalizing s with
  | nil => exact List.Subset.refl _
  | cons c rest ih => exact List.Subset.trans (ih (h.click c)) (h.effect c).occupied_subset

/-- A click where a rule succeeds reports the success. -/
theorem status_success (h : s.Legal d) (hc : c ∉ s.selected) (hp : s.board.get? c = some p)
    (hselect : s.isSelectable c = .ok true) {m : RuleMatch}
    (hm : s.testWith c p = .ok (.success m)) : (s.click c).status = .ok .success := by
  rw [click_eq_clickOutcome (Board.inBounds_of_get? hp) hc hp hselect hm]
  exact (h.fires hc hp hm).1

end Legal

end Session

/-- **A click does all or nothing.**  After any clicks, a click that raises an error, off the board
or in an evaluation, leaves the session as it was, and so does one that is rejected; while a rule is
pending the board stays as it was.  After a success nothing is selected, every selected cell and the
clicked one hold the replacement of the piece that they held, and all other cells hold what they
held; when a rule succeeds nothing is left to fail.  So no click fills an empty cell. -/
theorem click_all_or_nothing (d : Definition) (b : Board Piece) (cs : List Coord) (s : Session)
    (hs : (Session.onBoard d b).clicks cs = s) (c : Coord) :
    (∀ e, (s.click c).status = .error e →
      (s.click c).session = s ∧
      (s.board.inBounds c = false ∧ e = .board (.outside c) ∨
        ∃ cause, e = .eval cause ∧
          (s.isSelectable c = .error cause ∨
            ∃ p, s.board.get? c = some p ∧ s.testWith c p = .error cause))) ∧
    ((s.click c).status = .ok .pending → (s.click c).session.board = s.board) ∧
    ((s.click c).status = .ok .failure → (s.click c).session = s) ∧
    ((s.click c).status = .ok .success →
      ∃ p m, s.board.get? c = some p ∧ s.testWith c p = .ok (.success m) ∧
        s.Fires c p m (s.click c).session) ∧
    (∀ p m, c ∉ s.selected → s.board.get? c = some p → s.isSelectable c = .ok true →
      s.testWith c p = .ok (.success m) → (s.click c).status = .ok .success) ∧
    ∀ more, (s.clicks more).board.occupied ⊆ s.board.occupied := by
  have hlegal : s.Legal d := hs ▸ (Session.legal_onBoard d b).clicks cs
  have heffect := hlegal.effect c
  refine ⟨?_, ?_, ?_, ?_, fun p m hc hp hselect hm => hlegal.status_success hc hp hselect hm,
    hlegal.occupied_clicks⟩
  all_goals
    generalize (s.click c).status = status at heffect
    generalize (s.click c).session = s' at heffect
  · rintro e rfl
    cases heffect with
    | outside hin => exact ⟨rfl, .inl ⟨hin, rfl⟩⟩
    | selectRaised cause he => exact ⟨rfl, .inr ⟨cause, rfl, .inl he⟩⟩
    | ruleRaised p cause hp he => exact ⟨rfl, .inr ⟨cause, rfl, .inr ⟨p, hp, he⟩⟩⟩
  · rintro rfl
    cases heffect
    rfl
  · rintro rfl
    cases heffect
    rfl
  · rintro rfl
    cases heffect with
    | success p m s' hp hm hfires => exact ⟨p, m, hp, hm, hfires⟩

namespace Relay

/-- A click off the board changes nothing, and a click on the blue piece hands it over. -/
theorem all_or_nothing :
    (redSelected.click ⟨2, 0⟩).session = redSelected ∧
      (redSelected.click east).status = .ok .success ∧
      (redSelected.click east).session.selected = [] ∧
      (redSelected.click east).session.board.get? Coord.origin = none ∧
      (redSelected.click east).session.board.get? east = some red := by
  have hp : redSelected.board.get? east = some blue := get?_east
  have hselect : redSelected.isSelectable east = .ok true := by
    rw [Session.isSelectable, hp]
    simp only [Session.selectScope, candidates_redSelected]
    rfl
  have hm : redSelected.testWith east blue = .ok (.success ⟨0, [none, some red]⟩) := by
    rw [Session.testWith, candidates_redSelected]
    exact test_red_blue _
  have hout : redSelected.board.inBounds ⟨2, 0⟩ = false := by
    rw [← Bool.not_eq_true, Board.inBounds_iff_mem]
    decide
  have hraises : (redSelected.click ⟨2, 0⟩).status = .error (.board (.outside ⟨2, 0⟩)) := by
    simp [Session.click, hout]
  obtain ⟨hnothing, -⟩ :=
    click_all_or_nothing game board [Coord.origin] redSelected clicks_origin ⟨2, 0⟩
  obtain ⟨-, -, -, hall, hsuccess, -⟩ :=
    click_all_or_nothing game board [Coord.origin] redSelected clicks_origin east
  have hok := hsuccess blue _ (by decide) hp hselect hm
  obtain ⟨p, m, hp', hm', hfires⟩ := hall hok
  cases hp.symm.trans hp'
  cases hm.symm.trans hm'
  obtain ⟨horigin, hrest⟩ := List.forall₂_cons.1 hfires.replaced
  obtain ⟨heast, -⟩ := List.forall₂_cons.1 hrest
  exact ⟨(hnothing _ hraises).1, hok, hfires.selected, horigin, heast⟩

end Relay

end HexRules
