import HexRules.Proofs.BoardPieces
import HexRules.Proofs.ClickEffect

/-!
# The cells that can be clicked

The listing of the cells that can be clicked next tests the select condition and the rules at one
cell after the other, and a click tests them at its own cell.  Both ask the same, which is the probe
of the cell: the listing keeps the cells whose probe is valid, and the status of a click is that of
the probe.

    c is not selected → the listing of c :: rest is that of `rest`, with `c` if its probe is valid
                                                                         (selectableAmong_cons)
    (s.selectableAmong cs).1 = .ok cells →
      cells = cs.filter s.admits, and no probe of an unselected cell in `cs` raises an error
                                                                         (selectableAmong_spec)
    s.Legal d, s.probe c = .ok outcome → the status of s.click c is that of `outcome`
                                                                         (Legal.status_of_probe)
-/

namespace HexRules

namespace Session

/-- What the select condition and the rules say of a cell: none where it cannot be selected, else the
outcome of the rules. -/
def probe (s : Session) (c : Coord) : Except EvalError (Option (Outcome RuleMatch)) :=
  match s.board.get? c with
  | none => .ok none
  | some p => do
    if ← s.isSelectable c then
      let o ← s.testWith c p
      .ok (some o)
    else .ok none

/-- Is the cell not selected, and its probe valid? -/
def admits (s : Session) (c : Coord) : Bool :=
  match s.probe c with
  | .ok (some o) => c ∉ s.selected && o.isValid
  | _ => false

/-- The status of a click, by what the probe of its cell answers. -/
def probeStatus : Option (Outcome RuleMatch) → Status
  | some o => o.status
  | none => .failure

/-! ## The listing -/

/-- The listing asks a cell what its probe answers; at an empty cell nothing can be selected, so the
rules are not asked there. -/
theorem selectableAmong_cons (s : Session) {c : Coord} (hc : c ∉ s.selected) (rest : List Coord) :
    (s.selectableAmong (c :: rest)).1 = (do
      let outcome ← s.probe c
      let cells ← (s.selectableAmong rest).1
      .ok (if outcome.any Outcome.isValid then c :: cells else cells)) := by
  rw [selectableAmong, if_neg hc, probe]
  have hsame : (s.selectableAmong rest).1 = (do
      let cells ← (s.selectableAmong rest).1
      .ok cells) := by
    cases (s.selectableAmong rest).1 <;> rfl
  cases hp : s.board.get? c with
  | none =>
    have hselect : s.isSelectable c = .ok false := by rw [isSelectable, hp]
    rw [hselect]
    exact hsame
  | some p =>
    cases s.isSelectable c with
    | error e => rfl
    | ok selectable =>
      cases selectable with
      | false => exact hsame
      | true =>
        dsimp only
        rw [Option.toList_some, ← testWith]
        cases s.testWith c p with
        | error e => rfl
        | ok o => cases (s.selectableAmong rest).1 <;> rfl

/-- A listing that raises nothing has asked every unselected cell. -/
theorem selectableAmong_spec (s : Session) {cs cells : List Coord}
    (h : (s.selectableAmong cs).1 = .ok cells) :
    cells = cs.filter s.admits ∧ ∀ c ∈ cs, c ∉ s.selected → ∃ outcome, s.probe c = .ok outcome := by
  induction cs generalizing cells with
  | nil =>
    cases h
    exact ⟨rfl, by simp⟩
  | cons c rest ih =>
    by_cases hc : c ∈ s.selected
    · rw [selectableAmong, if_pos hc] at h
      obtain ⟨hcells, hprobes⟩ := ih h
      have hadmits : ¬ s.admits c = true := by
        unfold admits
        split <;> simp [hc]
      rw [List.filter_cons_of_neg hadmits, List.forall_mem_cons]
      exact ⟨hcells, fun hunselected => absurd hc hunselected, hprobes⟩
    · rw [s.selectableAmong_cons hc] at h
      obtain ⟨outcome, hprobe, h⟩ := exists_of_bind_ok h
      obtain ⟨others, hothers, h⟩ := exists_of_bind_ok h
      cases h
      obtain ⟨rfl, hprobes⟩ := ih hothers
      rw [List.filter_cons, List.forall_mem_cons, admits, hprobe]
      refine ⟨?_, fun _ => ⟨outcome, rfl⟩, hprobes⟩
      cases outcome with
      | none => rfl
      | some o => cases ho : o.isValid <;> simp [hc, ho]

/-! ## Clicks -/

theorem probe_eq_some_iff (s : Session) (c : Coord) (o : Outcome RuleMatch) :
    s.probe c = .ok (some o) ↔
      ∃ p, s.board.get? c = some p ∧ s.isSelectable c = .ok true ∧ s.testWith c p = .ok o := by
  constructor
  · intro h
    unfold probe at h
    split at h
    · cases h
    · rename_i p hp
      obtain ⟨selectable, hselect, h⟩ := exists_of_bind_ok h
      cases selectable with
      | false => cases h
      | true =>
        obtain ⟨outcome, ho, h⟩ := exists_of_bind_ok h
        cases h
        exact ⟨p, hp, hselect, ho⟩
  · rintro ⟨p, hp, hselect, ho⟩
    simp only [probe, hp, hselect, ho]
    rfl

/-- A click on an unselected cell that holds a piece ends as its probe says. -/
theorem Legal.status_of_probe {d : Definition} {s : Session} {c : Coord} {p : Piece}
    {outcome : Option (Outcome RuleMatch)} (h : s.Legal d) (hc : c ∉ s.selected)
    (hp : s.board.get? c = some p) (hprobe : s.probe c = .ok outcome) :
    (s.click c).status = .ok (probeStatus outcome) := by
  have hin := Board.inBounds_of_get? hp
  rw [probe, hp] at hprobe
  obtain ⟨selectable, hselect, hprobe⟩ := exists_of_bind_ok hprobe
  cases selectable with
  | false =>
    cases hprobe
    simp [Session.click, hin, hc, hp, hselect, probeStatus]
  | true =>
    obtain ⟨o, ho, hprobe⟩ := exists_of_bind_ok hprobe
    cases hprobe
    rw [click_eq_clickOutcome hin hc hp hselect ho]
    cases o with
    | success m => exact (h.fires hc hp ho).1
    | pending => rfl
    | failure => rfl

theorem admits_iff {s : Session} {c : Coord} {outcome : Option (Outcome RuleMatch)}
    (hc : c ∉ s.selected) (hprobe : s.probe c = .ok outcome) :
    s.admits c = true ↔ probeStatus outcome = .success ∨ probeStatus outcome = .pending := by
  rw [admits, hprobe]
  cases outcome with
  | none => simp [probeStatus]
  | some o => cases o <;> simp [hc, probeStatus, Outcome.isValid, Outcome.status]

theorem exists_of_admits {s : Session} {c : Coord} (h : s.admits c = true) :
    c ∉ s.selected ∧ ∃ p o, s.board.get? c = some p ∧ s.isSelectable c = .ok true ∧
      s.testWith c p = .ok o ∧ o.isValid = true := by
  unfold admits at h
  split at h
  · rename_i o ho
    rw [Bool.and_eq_true, decide_eq_true_iff] at h
    obtain ⟨p, hp, hselect, htest⟩ := (s.probe_eq_some_iff c o).1 ho
    exact ⟨h.1, p, o, hp, hselect, htest, h.2⟩
  · cases h

theorem not_mem_of_admits {s : Session} {c : Coord} (h : s.admits c = true) : c ∉ s.selected :=
  (exists_of_admits h).1

end Session

/-- **What is listed can be clicked.**  After any clicks, if listing the cells that can be clicked
raises no error, an unselected cell that holds a piece is listed exactly when a click on it now
succeeds or is pending.  No cell is listed twice, and every listed cell is unselected and holds a
piece.  A listing answers no session, so the selection and the board are those before it. -/
theorem mem_selectable_iff_click (d : Definition) (b : Board Piece) (cs : List Coord) (s : Session)
    (hs : (Session.onBoard d b).clicks cs = s) (cells : List Coord)
    (hcells : s.selectable.1 = .ok cells) :
    (∀ c p, s.board.get? c = some p → c ∉ s.selected →
      (c ∈ cells ↔
        (s.click c).status = .ok .success ∨ (s.click c).status = .ok .pending)) ∧
    cells.Nodup ∧
    ∀ c ∈ cells, c ∉ s.selected ∧ (s.board.get? c).isSome = true := by
  have hlegal : s.Legal d := hs ▸ (Session.legal_onBoard d b).clicks cs
  obtain ⟨hfilter, hprobes⟩ := s.selectableAmong_spec hcells
  refine ⟨fun c p hp hc => ?_, ?_, fun c hc => ?_⟩
  · have hoccupied : c ∈ s.board.occupied := (Board.mem_occupied_iff _ _).2 (by rw [hp]; rfl)
    obtain ⟨outcome, hprobe⟩ := hprobes c hoccupied hc
    rw [hfilter, List.mem_filter, hlegal.status_of_probe hc hp hprobe,
      Session.admits_iff hc hprobe]
    simp [hoccupied]
  · rw [hfilter]
    exact s.board.nodup_occupied.filter _
  · rw [hfilter] at hc
    obtain ⟨hoccupied, hadmits⟩ := List.mem_filter.1 hc
    exact ⟨Session.not_mem_of_admits hadmits, (Board.mem_occupied_iff _ _).1 hoccupied⟩

namespace Relay

theorem get?_board (c : Coord) :
    board.get? c =
      if c = east then some blue else if c = Coord.origin then some red else none := by
  rw [board, Board.get?_put, Board.get?_put, Board.get?_empty]

theorem occupied_board : board.occupied = [Coord.origin, east] := by
  rw [Board.occupied]
  simp only [get?_board]
  rfl

/-- Red comes first. -/
theorem selectable_start : (Session.onBoard game board).selectable.1 = .ok [Coord.origin] := by
  have hboard : (Session.onBoard game board).board = board := rfl
  have hred : (Session.onBoard game board).probe Coord.origin = .ok (some .pending) := by
    have hselect : (Session.onBoard game board).isSelectable Coord.origin = .ok true := by
      rw [Session.isSelectable, hboard, get?_origin]
      rfl
    have hpending : (Session.onBoard game board).testWith Coord.origin red = .ok .pending :=
      test_red _
    exact (Session.probe_eq_some_iff _ _ _).2 ⟨red, get?_origin, hselect, hpending⟩
  have hblue : (Session.onBoard game board).probe east = .ok none := by
    have hselect : (Session.onBoard game board).isSelectable east = .ok false := by
      rw [Session.isSelectable, hboard, get?_east]
      rfl
    simp only [Session.probe, hboard, get?_east, hselect]
    rfl
  rw [Session.selectable, hboard, occupied_board,
    Session.selectableAmong_cons _ List.not_mem_nil, hred,
    Session.selectableAmong_cons _ List.not_mem_nil, hblue]
  rfl

/-- After red the blue piece can be clicked. -/
theorem selectable_redSelected : redSelected.selectable.1 = .ok [east] := by
  have hboard : redSelected.board = board := rfl
  have hblue : redSelected.probe east = .ok (some (.success ⟨0, [none, some red]⟩)) := by
    have hselect : redSelected.isSelectable east = .ok true := by
      rw [Session.isSelectable, hboard, get?_east]
      simp only [Session.selectScope, candidates_redSelected]
      rfl
    have hsuccess : redSelected.testWith east blue = .ok (.success ⟨0, [none, some red]⟩) := by
      rw [Session.testWith, candidates_redSelected]
      exact test_red_blue _
    exact (Session.probe_eq_some_iff _ _ _).2 ⟨blue, get?_east, hselect, hsuccess⟩
  have hselected : Coord.origin ∈ redSelected.selected := List.mem_cons_self
  have hunselected : east ∉ redSelected.selected := by decide
  rw [Session.selectable, hboard, occupied_board, Session.selectableAmong, if_pos hselected,
    Session.selectableAmong_cons _ hunselected, hblue]
  rfl

/-- At the start a click on the red piece is not rejected while one on the blue piece is, and with
the red piece selected a click on the blue one is not. -/
theorem red_listed_first :
    (Session.onBoard game board).selectable.1 = .ok [Coord.origin] ∧
      (((Session.onBoard game board).click Coord.origin).status = .ok .success ∨
        ((Session.onBoard game board).click Coord.origin).status = .ok .pending) ∧
      ¬ (((Session.onBoard game board).click east).status = .ok .success ∨
        ((Session.onBoard game board).click east).status = .ok .pending) ∧
      redSelected.selectable.1 = .ok [east] ∧
      ((redSelected.click east).status = .ok .success ∨
        (redSelected.click east).status = .ok .pending) := by
  obtain ⟨hstart, -, -⟩ :=
    mem_selectable_iff_click game board [] _ rfl [Coord.origin] selectable_start
  obtain ⟨hafter, -, -⟩ := mem_selectable_iff_click game board [Coord.origin] redSelected
    clicks_origin [east] selectable_redSelected
  refine ⟨selectable_start, ?_, ?_, selectable_redSelected, ?_⟩
  · exact (hstart Coord.origin red get?_origin List.not_mem_nil).1 List.mem_cons_self
  · exact fun hclick => absurd ((hstart east blue get?_east List.not_mem_nil).2 hclick) (by decide)
  · exact (hafter east blue get?_east (by decide)).1 List.mem_cons_self

end Relay

end HexRules
