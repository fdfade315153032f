import HexRules.Proofs.FreedPieces
import HexRules.Proofs.MoveSearch

/-!
# Moves that are found

The search for a move asks about a board on which nothing is selected; when the second cell of a
pair is clicked, the first one is.  The two agree: the first cell alone is no match, so it stays
selected, and a selection never makes a lock harder to open.

    a lenient lock, s.selected = [] → what can be selected on s can be after any selection
                                                                         (isSelectable_of_lenient)
    s.Legal d, s.selected = [], Found s cells → s.Makes cells            (Legal.makes_of_found)
    sheet ∈ sheets → sheet.lock.Lenient                                  (lenient_of_mem_sheets)
-/

namespace HexRules

/-- What has been selected before makes the lock no harder to open. -/
def Lock.Lenient (k : Lock) : Prop := ∀ selected p, k.gap selected p ≤ k.gap [] p

theorem Lock.Lenient.opens {k : Lock} {ctx : Context} {selected : List Piece} {p : Piece}
    (h : k.Lenient) (hopens : k.opens ctx [] p = true) : k.opens ctx selected p = true := by
  obtain ⟨hgap, hholder⟩ := (Lock.opens_iff _ _ _ _).1 hopens
  exact (Lock.opens_iff _ _ _ _).2 ⟨Nat.le_trans (h selected p) hgap, hholder⟩

namespace Session

open Autoplay

/-- The statuses of clicks on some cells, one after the other. -/
def statuses (s : Session) : List Coord → List (Except Error Status)
  | [] => []
  | c :: rest => (s.click c).status :: (s.click c).session.statuses rest

/-- Clicks on the cells are pending up to the last one, which succeeds. -/
def Makes (s : Session) (cells : List Coord) : Prop :=
  s.statuses cells = List.replicate (cells.length - 1) (.ok .pending) ++ [.ok .success]

variable {d : Definition} {s : Session} {sheet : Sheet} {cells : List Coord}

theorem Makes.mem (h : s.Makes cells) : .ok .success ∈ s.statuses cells := by
  rw [h]
  exact List.mem_append_right _ (List.mem_singleton.2 rfl)

/-- A success leaves nothing selected. -/
theorem Legal.selected_eq_nil (h : s.Legal d) {c : Coord}
    (hstatus : (s.click c).status = .ok .success) : (s.click c).session.selected = [] := by
  have heffect := h.effect c
  rw [hstatus] at heffect
  cases heffect with
  | success p m _ hp hm hfires => exact hfires.selected

theorem Legal.selected_clicks_of_last (h : s.Legal d)
    (hlast : (s.statuses cells).getLast? = some (.ok .success)) :
    (s.clicks cells).selected = [] := by
  induction cells generalizing s with
  | nil => cases hlast
  | cons c rest ih =>
    cases rest with
    | nil => exact h.selected_eq_nil (Option.some.inj hlast)
    | cons c' rest => exact ih (h.click c) hlast

theorem Legal.selected_of_makes (h : s.Legal d) (hmakes : s.Makes cells) :
    (s.clicks cells).selected = [] := by
  refine h.selected_clicks_of_last ?_
  rw [hmakes, List.getLast?_concat]

/-- With the cells before it selected, the last cell of a selection that the rules accept is
clicked. -/
theorem Legal.status_of_accepts_append (h : s.Legal d) {c : Coord} {p : Piece} (hc : c ∉ s.selected)
    (hp : s.board.get? c = some p) (hselect : s.isSelectable c = .ok true)
    (haccepts : accepts s (s.selected ++ [c]) = .ok true) :
    (s.click c).status = .ok .success := by
  obtain ⟨m, hm⟩ := (accepts_append_iff hp).1 haccepts
  exact h.status_success hc hp hselect hm

/-- A sheet answers for every board and for every selection on it. -/
theorem calm_of_definition_eq (hd : s.definition = d.withBoard s.board)
    (hfollows : d.Follows sheet) : s.Calm where
  select c := by
    have hlock : s.definition.select.IsLock sheet.lock := by
      rw [hd]
      exact hfollows.select
    cases hp : s.board.get? c with
    | none => exact ⟨false, by rw [isSelectable, hp]⟩
    | some p => exact ⟨_, isSelectable_eq hlock hp⟩
  rules ctx candidates scope := by
    rw [hd]
    exact hfollows.rules.quiet ctx candidates scope

theorem calm_of_follows (h : s.Legal d) (hfollows : d.Follows sheet) : s.Calm :=
  calm_of_definition_eq h.definition_eq hfollows

/-- A lenient lock that opens with nothing selected opens after any selection. -/
theorem Legal.isSelectable_of_lenient (h : s.Legal d) (hfollows : d.Follows sheet)
    (hlenient : sheet.lock.Lenient) (hnone : s.selected = []) {c : Coord}
    (hselect : s.isSelectable c = .ok true) (selected : List Coord) :
    isSelectable { s with selected := selected } c = .ok true := by
  have hlock := h.isLock hfollows.select
  cases hp : s.board.get? c with
  | none =>
    rw [isSelectable, hp] at hselect
    cases hselect
  | some p =>
    rw [isSelectable_eq hlock hp, candidates_of_selected_nil hnone] at hselect
    have hevery := isSelectable_eq (s := { s with selected := selected }) hlock hp
    exact hevery.trans (congrArg Except.ok (hlenient.opens (Except.ok.inj hselect)))

/-- The first cell of a pair is no match, so a click on it selects it. -/
theorem click_first (hcalm : s.Calm) (hnone : s.selected = []) {a : Coord}
    (ha : s.admits a = true) (halone : reacts s [a] = false) :
    s.click a = ⟨.ok .pending, { s with selected := [a] }, []⟩ := by
  obtain ⟨hunselected, p, o, hp, hselect, htest, hvalid⟩ := exists_of_admits ha
  have hpending : s.testWith a p = .ok .pending := by
    cases o with
    | success m =>
      have haccepts := (accepts_append_iff hp).2 ⟨m, htest⟩
      rw [hnone, List.nil_append, accepts_eq hcalm, halone] at haccepts
      cases haccepts
    | pending => exact htest
    | failure => cases hvalid
  rw [click_eq_clickOutcome (Board.inBounds_of_get? hp) hunselected hp hselect hpending,
    clickOutcome, hnone]
  rfl

/-- For the second cell of a pair the rules are asked what the search has asked, and the lock opens
all the more. -/
theorem Legal.makes_of_found (h : s.Legal d) (hfollows : d.Follows sheet)
    (hlenient : sheet.lock.Lenient) (hnone : s.selected = []) (hfound : Found s cells) :
    s.Makes cells := by
  have hcalm := calm_of_follows h hfollows
  cases hfound with
  | single c hc hreacts =>
    obtain ⟨hunselected, p, -, hp, hselect, -⟩ := exists_of_admits hc
    have haccepts : accepts s (s.selected ++ [c]) = .ok true := by
      rw [hnone, List.nil_append, accepts_eq hcalm, hreacts]
    have hstatus := h.status_of_accepts_append hunselected hp hselect haccepts
    rw [Makes, statuses, hstatus]
    rfl
  | pair a b ha hb hne halone hreacts =>
    obtain ⟨-, q, -, hq, hselect, -⟩ := exists_of_admits hb
    have hclick := click_first hcalm hnone ha halone
    have hlegal : Legal d { s with selected := [a] } := by
      have hafter := h.click a
      rwa [hclick] at hafter
    have hopens := h.isSelectable_of_lenient hfollows hlenient hnone hselect [a]
    have hunselected : b ∉ [a] := fun hb => hne (List.mem_singleton.1 hb).symm
    have haccepts : accepts s [a, b] = .ok true := by rw [accepts_eq hcalm, hreacts]
    have hstatus := hlegal.status_of_accepts_append hunselected hq hopens haccepts
    rw [Makes, statuses, statuses, hclick, hstatus]
    rfl

end Session

namespace Games

theorem lenient_of_mem_sheets {sheet : Sheet} (h : sheet ∈ sheets) : sheet.lock.Lenient := by
  rcases List.mem_pair.1 h with rfl | rfl
  · exact fun _ _ => Nat.le_refl 3
  · intro selected p
    simp only [fivePhasesSheet, fivePhasesLock]
    split
    · exact Nat.le_refl 5
    · split <;> simp

end Games

end HexRules
