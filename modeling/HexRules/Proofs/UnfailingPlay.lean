import HexRules.Proofs.FoundMoves

/-!
# Play without errors

The rules of the bundled games and their select conditions answer on every board, so the only error
that is left to a click is that of a cell off the board.  It is left to the clicked cell alone: the
cells that a rule replaces are the selected ones, and a cell that gets selected holds a piece.  Pieces
put on cells past the rules change neither the cells of the board nor the selection.

    s.Seated d b → (s.act a).Seated d b                                  (Seated.act)
    s.Seated d b, s.Calm → a click on the board has a status             (Seated.exists_status)
-/

namespace HexRules

namespace Session

/-! ## Acts -/

/-- What can be done to a session: a click, or a piece put on a cell past the rules. -/
inductive Act
  | click (c : Coord)
  | put (c : Coord) (p : Option Piece)

/-- The session after an act.  Nothing is put on a cell off the board. -/
def act (s : Session) : Act → Session
  | .click c => (s.click c).session
  | .put c p =>
    match s.setPiece c p with
    | .ok r => r.2
    | .error _ => s

/-- The session after some acts. -/
def acts (s : Session) : List Act → Session
  | [] => s
  | a :: rest => (s.act a).acts rest

theorem exists_of_setPiece {s : Session} {c : Coord} {p : Option Piece}
    {r : Option Piece × Session} (h : s.setPiece c p = .ok r) :
    ∃ b : Board Piece, r.2 = s.withBoard b ∧ ∀ e, b.inBounds e = s.board.inBounds e := by
  obtain ⟨⟨previous, b⟩, hset, hok⟩ := exists_of_bind_ok h
  cases Except.ok.inj hok
  exact ⟨b, rfl, Board.inBounds_of_set hset⟩

/-! ## What acts preserve -/

/-- A session of the game `d` on the cells of the board `b`, with a selection among them. -/
structure Seated (d : Definition) (b : Board Piece) (s : Session) : Prop where
  definition_eq : s.definition = d.withBoard s.board
  inBounds_eq : ∀ c, s.board.inBounds c = b.inBounds c
  selected : ∀ c ∈ s.selected, s.board.inBounds c = true

theorem seated_onBoard (d : Definition) (b : Board Piece) : (onBoard d b).Seated d b :=
  ⟨rfl, fun _ => rfl, fun _ hc => absurd hc List.not_mem_nil⟩

namespace Seated

variable {d : Definition} {b : Board Piece} {s : Session} {c : Coord} {p : Piece}

theorem select (h : s.Seated d b) {cells : List Coord}
    (hcells : ∀ c ∈ cells, s.board.inBounds c = true) : Seated d b { s with selected := cells } :=
  ⟨h.definition_eq, h.inBounds_eq, hcells⟩

theorem withBoard (h : s.Seated d b) {b' : Board Piece}
    (hbounds : ∀ c, b'.inBounds c = s.board.inBounds c) : (s.withBoard b').Seated d b where
  definition_eq := by
    change s.definition.withBoard b' = d.withBoard b'
    rw [h.definition_eq]
    rfl
  inBounds_eq c := (hbounds c).trans (h.inBounds_eq c)
  selected c hc := (hbounds c).trans (h.selected c hc)

theorem inBounds_append (h : s.Seated d b) (hp : s.board.get? c = some p) :
    ∀ e ∈ s.selected ++ [c], s.board.inBounds e = true := by
  intro e he
  rcases List.mem_append.1 he with he | he
  · exact h.selected e he
  · rw [List.mem_singleton.1 he]
    exact Board.inBounds_of_get? hp

theorem exists_success (h : s.Seated d b) (hp : s.board.get? c = some p) (m : RuleMatch) :
    ∃ b' : Board Piece, (∀ e, b'.inBounds e = s.board.inBounds e) ∧
      (s.clickOutcome c (.success m)).status = .ok .success ∧
      (s.clickOutcome c (.success m)).session = { s.withBoard b' with selected := [] } := by
  obtain ⟨b', hok, hbounds⟩ := exists_replaceAll ((s.selected ++ [c]).zip m.replacements) s.board
    fun w hw => h.inBounds_append hp w.1 (List.of_mem_zip hw).1
  exact ⟨b', hbounds, by simp only [clickOutcome, hok], by simp only [clickOutcome, hok]⟩

theorem click (h : s.Seated d b) (c : Coord) : (s.click c).session.Seated d b := by
  have hcases := s.clicksTo_click c
  generalize s.click c = r at hcases
  cases hcases with
  | outside | selectRaised | refused | ruleRaised => exact h
  | deselected => exact h.select fun e he => h.selected e (List.mem_of_mem_take he)
  | cleared => exact h.select fun e he => h.selected e (List.mem_of_mem_take he)
  | tested p o hc hp hselect ho =>
    cases o with
    | success m =>
      obtain ⟨b', hbounds, -, hsession⟩ := h.exists_success hp m
      rw [hsession]
      exact (h.withBoard hbounds).select fun _ he => absurd he List.not_mem_nil
    | pending => exact h.select (h.inBounds_append hp)
    | failure => exact h

theorem act (h : s.Seated d b) (a : Act) : (s.act a).Seated d b := by
  cases a with
  | click c => exact h.click c
  | put c p =>
    rw [Session.act]
    cases hput : s.setPiece c p with
    | error e => exact h
    | ok r =>
      obtain ⟨b', hsession, hbounds⟩ := exists_of_setPiece hput
      change r.2.Seated d b
      rw [hsession]
      exact h.withBoard hbounds

theorem acts (h : s.Seated d b) (as : List Act) : (s.acts as).Seated d b := by
  induction as generalizing s with
  | nil => exact h
  | cons a rest ih => exact ih (h.act a)

/-- Neither the select condition nor the rules nor the writes raise an error. -/
theorem exists_status (h : s.Seated d b) (hcalm : s.Calm) (hin : s.board.inBounds c = true) :
    ∃ status, (s.click c).status = .ok status := by
  have hcases := s.clicksTo_click c
  generalize s.click c = r at hcases
  cases hcases with
  | outside hout => cases hin.symm.trans hout
  | selectRaised p e hc hp he =>
    obtain ⟨x, hx⟩ := hcalm.select c
    cases he.symm.trans hx
  | ruleRaised p e hc hp hselect he =>
    obtain ⟨o, ho⟩ := (hcalm.rules (s.definition.context c) (s.candidates ++ [p])
      Scope.empty).exists_ok
    cases he.symm.trans ho
  | tested p o hc hp hselect ho =>
    cases o with
    | success m =>
      obtain ⟨b', -, hstatus, -⟩ := h.exists_success hp m
      exact ⟨_, hstatus⟩
    | pending => exact ⟨_, rfl⟩
    | failure => exact ⟨_, rfl⟩
  | deselected | cleared | refused => exact ⟨_, rfl⟩

theorem status_outside (h : s.Seated d b) (hout : b.inBounds c = false) :
    (s.click c).status = .error (.board (.outside c)) := by
  rw [Session.click, h.inBounds_eq, hout]
  rfl

end Seated

end Session

open Session

/-- **Play raises no errors.**  The rules of a bundled game answer about all candidates, in every
context and every scope.  In a session on any board, after any clicks and whatever has been put on
cells meanwhile, the select condition answers at every cell, the cells that could be clicked next can
be listed, and a click on the board has a status.  A click off the board raises the error of a
selection, and no click raises another one. -/
theorem play_raises_nothing : ∀ game ∈ Games.bundled, ∃ d, Definition.compile game.2 = .ok d ∧
    (∀ ctx candidates scope, ∃ o, (d.rules.test ctx candidates scope).1 = .ok o) ∧
    ∀ (b : Board Piece) (as : List Act) (s : Session), (onBoard d b).acts as = s →
      (∀ c, ∃ x, s.isSelectable c = .ok x) ∧
      (∃ cells, s.selectable.1 = .ok cells) ∧
      ∀ c, (b.inBounds c = true → ∃ status, (s.click c).status = .ok status) ∧
        (b.inBounds c = false → (s.click c).status = .error (.board (.outside c)) ∧
          (BoardError.outside c).family? = some .selection) := by
  intro game hgame
  obtain ⟨d, hd, sheet, -, hfollows⟩ := Games.exists_follows hgame
  refine ⟨d, hd, fun ctx candidates scope =>
    (hfollows.rules.quiet ctx candidates scope).exists_ok, ?_⟩
  intro b as s hs
  have hseated : s.Seated d b := hs ▸ (seated_onBoard d b).acts as
  have hcalm := calm_of_definition_eq hseated.definition_eq hfollows
  refine ⟨hcalm.select, ⟨_, hcalm.selectable_eq⟩, fun c => ⟨fun hin => ?_, fun hout => ?_⟩⟩
  · exact hseated.exists_status hcalm ((hseated.inBounds_eq c).trans hin)
  · exact ⟨hseated.status_outside hout, rfl⟩

namespace Games

open Coord Relay

/-- Quicksilver is selected and then taken off the board.  Tin can still be clicked, and the cell
east of it cannot. -/
theorem tin_clicked_alone : ("sigmar", alchemy) ∈ bundled ∧
    tinBoard.inBounds east = true ∧ tinBoard.inBounds ⟨2, 0⟩ = false ∧
    ∃ d, Definition.compile alchemy = .ok d ∧
      ∃ s, (onBoard d tinBoard).acts [.click origin, .put origin none] = s ∧
        (∃ status, (s.click east).status = .ok status) ∧
        (s.click ⟨2, 0⟩).status = .error (.board (.outside ⟨2, 0⟩)) := by
  have hmem : ("sigmar", alchemy) ∈ bundled := List.mem_cons_self
  have hin : tinBoard.inBounds east = true := inBounds_east _ rfl
  have hout : tinBoard.inBounds ⟨2, 0⟩ = false := by
    rw [Bool.eq_false_iff, ne_eq, Board.inBounds_iff_mem]
    decide
  obtain ⟨d, hd, -, hplay⟩ := play_raises_nothing _ hmem
  obtain ⟨-, -, hclick⟩ := hplay tinBoard [.click origin, .put origin none] _ rfl
  exact ⟨hmem, hin, hout, d, hd, _, rfl, (hclick east).1 hin, ((hclick ⟨2, 0⟩).2 hout).1⟩

end Games

end HexRules
