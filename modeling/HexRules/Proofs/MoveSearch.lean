import HexRules.Play.Autoplay
import HexRules.Proofs.RuleStatus
import HexRules.Proofs.Selectable

/-!
# The search for a move

Where nothing raises an error, the search for a move finds the first selection that the rules
accept: of one cell that can be clicked, or else of two.  What it asks of a selection is what a
click on the last cell asks when the others are selected.

    s.Calm → findMove s = .ok ((selections (s.board.occupied.filter s.admits)).find? (reacts s))
                                                                         (findMove_eq_find?)
    s.Calm, findMove s = .ok (some cells) → Found s cells                (found_of_findMove)
    accepts s (s.selected ++ [c]) = .ok true ↔ a rule succeeds at c      (accepts_append_iff)
-/

namespace HexRules

namespace Session

/-- Neither the select condition nor the rules raise an error. -/
structure Calm (s : Session) : Prop where
  select : ∀ c, ∃ x, s.isSelectable c = .ok x
  rules : ∀ ctx candidates scope, s.definition.rules.Quiet ctx candidates scope

variable {s : Session} {c : Coord}

theorem Calm.exists_probe (h : s.Calm) (c : Coord) : ∃ outcome, s.probe c = .ok outcome := by
  unfold probe
  cases s.board.get? c with
  | none => exact ⟨none, rfl⟩
  | some p =>
    obtain ⟨x, hx⟩ := h.select c
    obtain ⟨o, ho⟩ := (h.rules (s.definition.context c) (s.candidates ++ [p]) Scope.empty).exists_ok
    have htest : s.testWith c p = .ok o := ho
    cases x with
    | false =>
      simp only [hx]
      exact ⟨none, rfl⟩
    | true =>
      simp only [hx, htest]
      exact ⟨some o, rfl⟩

theorem Calm.exists_selectableAmong (h : s.Calm) (cs : List Coord) :
    ∃ cells, (s.selectableAmong cs).1 = .ok cells := by
  induction cs with
  | nil => exact ⟨[], rfl⟩
  | cons c rest ih =>
    obtain ⟨others, hothers⟩ := ih
    by_cases hc : c ∈ s.selected
    · rw [selectableAmong, if_pos hc]
      exact ⟨others, hothers⟩
    · obtain ⟨outcome, houtcome⟩ := h.exists_probe c
      rw [s.selectableAmong_cons hc, houtcome, hothers]
      exact ⟨_, rfl⟩

theorem Calm.selectable_eq (h : s.Calm) :
    s.selectable.1 = .ok (s.board.occupied.filter s.admits) := by
  obtain ⟨cells, hcells⟩ := h.exists_selectableAmong s.board.occupied
  rw [selectable, hcells, (s.selectableAmong_spec hcells).1]

end Session

namespace Autoplay

open Session

variable {s : Session} {cells cs : List Coord}

/-! ## Selections -/

theorem exists_of_mem_pairs {α : Type} {xs ys : List α} (h : ys ∈ pairs xs) :
    ∃ a b, ys = [a, b] ∧ ys.Sublist xs := by
  induction xs with
  | nil => cases h
  | cons x rest ih =>
    rcases List.mem_append.1 h with h | h
    · obtain ⟨b, hb, rfl⟩ := List.mem_map.1 h
      exact ⟨x, b, rfl, (List.singleton_sublist.2 hb).cons_cons x⟩
    · obtain ⟨a, b, hys, hsub⟩ := ih h
      exact ⟨a, b, hys, hsub.cons x⟩

/-- Do the rules accept a selection without an error? -/
def reacts (s : Session) (cells : List Coord) : Bool :=
  match accepts s cells with
  | .ok accepted => accepted
  | .error _ => false

theorem accepts_eq (h : s.Calm) (cells : List Coord) : accepts s cells = .ok (reacts s cells) := by
  have hok : ∃ accepted, accepts s cells = .ok accepted := by
    obtain ⟨o, ho⟩ := (h.rules (s.definition.context (cells.getLast?.getD Coord.origin))
      (cells.filterMap s.board.get?) Scope.empty).exists_ok
    simp only [accepts, ho]
    cases o <;> exact ⟨_, rfl⟩
  obtain ⟨accepted, haccepted⟩ := hok
  rw [reacts, haccepted]

theorem firstAccepted_eq_find? (h : s.Calm) (options : List (List Coord)) :
    firstAccepted s options = .ok (options.find? (reacts s)) := by
  induction options with
  | nil => rfl
  | cons cells rest ih =>
    rw [firstAccepted, accepts_eq h cells]
    cases hreacts : reacts s cells with
    | true => rw [List.find?_cons_of_pos hreacts]
    | false =>
      rw [List.find?_cons_of_neg (Bool.not_eq_true _ ▸ hreacts)]
      exact ih

theorem findMove_eq_find? (h : s.Calm) :
    findMove s = .ok ((selections (s.board.occupied.filter s.admits)).find? (reacts s)) := by
  rw [findMove, h.selectable_eq]
  exact firstAccepted_eq_find? h _

theorem exists_findMove (h : s.Calm) : ∃ move, findMove s = .ok move := ⟨_, findMove_eq_find? h⟩

/-! ## What is found -/

/-- What the search can find: a cell that is a match, or a cell that is none with another one. -/
inductive Found (s : Session) : List Coord → Prop
  | single (c : Coord) (hc : s.admits c = true) (h : reacts s [c] = true) : Found s [c]
  | pair (a b : Coord) (ha : s.admits a = true) (hb : s.admits b = true) (hne : a ≠ b)
      (halone : reacts s [a] = false) (h : reacts s [a, b] = true) : Found s [a, b]

/-- Cells one by one come first, so the cells of a pair have been refused. -/
theorem found_of_findMove (h : s.Calm) (hfound : findMove s = .ok (some cells)) :
    Found s cells := by
  rw [findMove_eq_find? h, selections, List.find?_append] at hfound
  generalize hadmitted : s.board.occupied.filter s.admits = admitted at hfound
  have hadmits : ∀ c ∈ admitted, s.admits c = true := by
    intro c hc
    rw [← hadmitted] at hc
    exact (List.mem_filter.1 hc).2
  have hnodup : admitted.Nodup := hadmitted ▸ s.board.nodup_occupied.filter _
  rcases Option.or_eq_some_iff.1 (Except.ok.inj hfound) with hsingle | ⟨hnone, hpair⟩
  · obtain ⟨c, hc, rfl⟩ := List.mem_map.1 (List.mem_of_find?_eq_some hsingle)
    exact .single c (hadmits c hc) (List.find?_some hsingle)
  · obtain ⟨a, b, rfl, hsub⟩ := exists_of_mem_pairs (List.mem_of_find?_eq_some hpair)
    have ha : a ∈ admitted := hsub.subset List.mem_cons_self
    have hb : b ∈ admitted := hsub.subset (List.mem_cons_of_mem _ List.mem_cons_self)
    have hne : a ≠ b := fun heq =>
      (List.nodup_cons.1 (hnodup.sublist hsub)).1 (List.mem_singleton.2 heq)
    have halone : ¬ reacts s [a] = true :=
      List.find?_eq_none.1 hnone [a] (List.mem_map_of_mem ha)
    exact .pair a b (hadmits a ha) (hadmits b hb) hne (Bool.not_eq_true _ ▸ halone)
      (List.find?_some hpair)

/-- A selection is seen from its last cell, as the selected cells are with the one that is
clicked. -/
theorem accepts_append_iff {c : Coord} {p : Piece} (hp : s.board.get? c = some p) :
    accepts s (s.selected ++ [c]) = .ok true ↔ ∃ m, s.testWith c p = .ok (.success m) := by
  have hpieces : (s.selected ++ [c]).filterMap s.board.get? = s.candidates ++ [p] := by
    rw [List.filterMap_append, List.filterMap_cons_some hp]
    rfl
  have hlast : (s.selected ++ [c]).getLast?.getD Coord.origin = c := by
    rw [List.getLast?_concat]
    rfl
  simp only [accepts, hpieces, hlast, testWith]
  cases (s.definition.rules.test (s.definition.context c) (s.candidates ++ [p]) Scope.empty).1 with
  | error e => simp
  | ok o => cases o <;> simp

end Autoplay

end HexRules
