import HexRules.Play.Session

/-!
# What a click does

All the ways in which a click ends, each with what holds of the session before it.  A session goes
through its clicks from left to right, those that raise an error included.

    ClicksTo s c (s.click c)                                             (clicksTo_click)
-/

namespace HexRules

namespace Session

/-- What the rules answer to the selected pieces and one more, seen from that one's cell. -/
def testWith (s : Session) (c : Coord) (p : Piece) : Except EvalError (Outcome RuleMatch) :=
  (s.definition.rules.test (s.definition.context c) (s.candidates ++ [p]) Scope.empty).1

/-- The session with only the first `k` of its selected cells. -/
def firstSelected (s : Session) (k : Nat) : Session := { s with selected := s.selected.take k }

/-- The ways in which a click on the cell `c` ends. -/
inductive ClicksTo (s : Session) (c : Coord) : Clicked → Prop
  | outside (hin : s.board.inBounds c = false) :
    ClicksTo s c ⟨.error (.board (.outside c)), s, []⟩
  /-- The last selected cell. -/
  | deselected (hlast : s.selected.getLast? = some c) :
    ClicksTo s c ⟨.ok .pending, s.firstSelected (s.selected.length - 1), []⟩
  /-- A selected cell that is not the last, or an empty one. -/
  | cleared (hc : c ∈ s.selected ∧ s.selected.getLast? ≠ some c ∨
      s.board.inBounds c = true ∧ s.board.get? c = none) :
    ClicksTo s c ⟨.ok .pending, s.firstSelected 0, []⟩
  | selectRaised (p : Piece) (e : EvalError) (hc : c ∉ s.selected)
      (hp : s.board.get? c = some p) (he : s.isSelectable c = .error e) :
    ClicksTo s c ⟨.error (.eval e), s, []⟩
  | refused (p : Piece) (hc : c ∉ s.selected) (hp : s.board.get? c = some p)
      (hselect : s.isSelectable c = .ok false) :
    ClicksTo s c ⟨.ok .failure, s, []⟩
  | ruleRaised (p : Piece) (e : EvalError) (hc : c ∉ s.selected)
      (hp : s.board.get? c = some p) (hselect : s.isSelectable c = .ok true)
      (he : s.testWith c p = .error e) :
    ClicksTo s c ⟨.error (.eval e), s, []⟩
  /-- The rules answer, and what the click does is up to their outcome. -/
  | tested (p : Piece) (o : Outcome RuleMatch) (hc : c ∉ s.selected)
      (hp : s.board.get? c = some p) (hselect : s.isSelectable c = .ok true)
      (ho : s.testWith c p = .ok o) :
    ClicksTo s c (s.clickOutcome c o)

theorem clicksTo_click (s : Session) (c : Coord) : ClicksTo s c (s.click c) := by
  unfold click
  cases hin : s.board.inBounds c with
  | false => exact .outside hin
  | true =>
    rw [Bool.not_true, if_neg Bool.false_ne_true]
    by_cases hc : c ∈ s.selected
    · rw [if_pos hc]
      by_cases hlast : s.selected.getLast? = some c
      · rw [if_pos hlast, List.dropLast_eq_take]
        exact .deselected hlast
      · rw [if_neg hlast]
        exact .cleared (.inl ⟨hc, hlast⟩)
    · rw [if_neg hc]
      cases hp : s.board.get? c with
      | none => exact .cleared (.inr ⟨hin, hp⟩)
      | some p =>
        cases hselect : s.isSelectable c with
        | error e => exact .selectRaised p e hc hp hselect
        | ok selectable =>
          cases selectable with
          | false => exact .refused p hc hp hselect
          | true =>
            dsimp only
            rw [← testWith]
            cases ho : s.testWith c p with
            | error e => exact .ruleRaised p e hc hp hselect ho
            | ok o => exact .tested p o hc hp hselect ho

/-- A cell that can be selected is up to the rules. -/
theorem click_eq_clickOutcome {s : Session} {c : Coord} {p : Piece} {o : Outcome RuleMatch}
    (hin : s.board.inBounds c = true) (hc : c ∉ s.selected) (hp : s.board.get? c = some p)
    (hselect : s.isSelectable c = .ok true) (ho : s.testWith c p = .ok o) :
    s.click c = s.clickOutcome c o := by
  rw [testWith] at ho
  simp [click, hin, hc, hp, hselect, ho]

/-- The session after some clicks. -/
def clicks (s : Session) : List Coord → Session
  | [] => s
  | c :: rest => clicks (s.click c).session rest

end Session

end HexRules
