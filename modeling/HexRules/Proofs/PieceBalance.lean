import HexRules.Proofs.BoardPieces
import HexRules.Proofs.ReactionTables

/-!
# The balance of a click

A click that succeeds takes pieces off the board and puts others in their place; all other cells
keep theirs.  When the rules are tabulated, what is taken and what is placed is a reaction of the
table, and no other click touches the board.

    cells of which none is listed twice, all that hold a piece among them
      → b.pieces ~ cells.filterMap b.get?                                (perm_pieces_of_covers)
    s.Fires c p m s' → the pieces tested and those of s' are the replacements and the pieces of s
                                                                         (Fires.balance)
    tabulated rules → a click succeeds and exchanges the pieces of a reaction, or keeps the board
                                                                         (Legal.exchange)
-/

namespace HexRules

/-! ## Boards -/

namespace Board

variable {α : Type}

/-- Pieces can be counted over any cells that cover them. -/
theorem perm_pieces_of_covers (b : Board α) {cells : List Coord} (hnodup : cells.Nodup)
    (hcovers : ∀ c, (b.get? c).isSome = true → c ∈ cells) :
    b.pieces.Perm (cells.filterMap b.get?) := by
  have hfilter : ∀ l : List Coord, l.filterMap b.get? =
      (l.filter fun c => (b.get? c).isSome).filterMap b.get? := by
    intro l
    rw [List.filterMap_filter]
    refine List.filterMap_congr fun c _ => ?_
    cases b.get? c <;> rfl
  rw [pieces, hfilter b.coords, hfilter cells]
  refine List.Perm.filterMap _ ?_
  rw [List.perm_ext_iff_of_nodup (b.nodup_coords.filter _) (hnodup.filter _)]
  intro c
  have hmem := b.mem_occupied_iff c
  rw [occupied] at hmem
  rw [hmem, List.mem_filter]
  exact ⟨fun h => ⟨hcovers c h, h⟩, And.right⟩

theorem length_occupied (b : Board α) : b.occupied.length = b.pieces.length := by
  rw [occupied, pieces, List.length_filterMap_eq_countP, List.countP_eq_length_filter]

/-- `b'` is `b` with the pieces of a reaction exchanged. -/
def Exchanges (b b' : Board Piece) (r : Reaction) : Prop :=
  (r.taken ++ b'.pieces).Perm (r.placed ++ b.pieces)

variable {b b' : Board Piece} {r : Reaction}

theorem Exchanges.length_eq (h : b.Exchanges b' r) :
    r.taken.length + b'.pieces.length = r.placed.length + b.pieces.length := by
  have hlen := List.Perm.length_eq h
  rwa [List.length_append, List.length_append] at hlen

theorem Exchanges.countP_eq (h : b.Exchanges b' r) (f : Piece → Bool) :
    r.taken.countP f + b'.pieces.countP f = r.placed.countP f + b.pieces.countP f := by
  have hcount := List.Perm.countP_eq f h
  rwa [List.countP_append, List.countP_append] at hcount

theorem Exchanges.count_eq (h : b.Exchanges b' r) (p : Piece) :
    r.taken.count p + b'.pieces.count p = r.placed.count p + b.pieces.count p :=
  h.countP_eq (· == p)

end Board

/-! ## Clicks -/

namespace Session

variable {d : Definition} {s s' : Session} {c : Coord} {p : Piece} {m : RuleMatch}

/-- The cells of a rule that fires hold the pieces that it was tested on before and their
replacements after; all other cells hold the same. -/
theorem Fires.balance (h : s.Fires c p m s') (hnodup : (s.selected ++ [c]).Nodup) :
    ((s.candidates ++ [p]) ++ s'.board.pieces).Perm
      (m.replacements.filterMap id ++ s.board.pieces) := by
  let others := s.board.coords.filter fun e => e ∉ s.selected ++ [c]
  have hnot : ∀ e ∈ others, e ∉ s.selected ++ [c] := fun e he => by
    simpa using (List.mem_filter.1 he).2
  have hall : ((s.selected ++ [c]) ++ others).Nodup :=
    List.nodup_append.2 ⟨hnodup, s.board.nodup_coords.filter _,
      fun e he e' he' heq => hnot e' he' (heq ▸ he)⟩
  have hin : ∀ e, (s.board.get? e).isSome = true → e ∈ (s.selected ++ [c]) ++ others := by
    intro e he
    by_cases hmem : e ∈ s.selected ++ [c]
    · exact List.mem_append_left _ hmem
    · have hcoords := (List.mem_filter.1 ((s.board.mem_occupied_iff e).2 he)).1
      exact List.mem_append_right _ (List.mem_filter.2 ⟨hcoords, by simpa using hmem⟩)
  have hbefore := s.board.perm_pieces_of_covers hall hin
  have hafter := s'.board.perm_pieces_of_covers hall fun e he => hin e (h.isSome_of_isSome he)
  have hkept : others.filterMap s'.board.get? = others.filterMap s.board.get? := by
    exact List.filterMap_congr fun e he => h.others e (hnot e he)
  have hwritten : (s.selected ++ [c]).filterMap s'.board.get? = m.replacements.filterMap id := by
    have hmap : (s.selected ++ [c]).map s'.board.get? = m.replacements :=
      List.forall₂_eq_eq_eq ▸ List.forall₂_map_left_iff.2 h.replaced
    rw [← hmap, List.filterMap_map]
    rfl
  rw [List.filterMap_append, filterMap_of_forall₂ h.held] at hbefore
  rw [List.filterMap_append, hwritten, hkept] at hafter
  have hboth := (hafter.append_left (s.candidates ++ [p])).trans
    (List.perm_append_comm_assoc (s.candidates ++ [p]) (m.replacements.filterMap id) _)
  exact hboth.trans (hbefore.symm.append_left _)

/-- The replacements of a match are those of a reaction that takes the pieces tested. -/
theorem Fires.exchanges (h : s.Fires c p m s') (hnodup : (s.selected ++ [c]).Nodup)
    {r : Reaction} (hr : ((s.candidates ++ [p]).zip m.replacements).Perm r) :
    s.board.Exchanges s'.board r := by
  have hlen : (s.candidates ++ [p]).length = m.replacements.length := by
    rw [← h.held.length_eq, h.replaced.length_eq]
  obtain ⟨htaken, hplaced⟩ := Reaction.perm_of_zip hlen hr
  exact ((htaken.symm.append_right _).trans (h.balance hnodup)).trans (hplaced.append_right _)

namespace Legal

/-- All that a click does to the board when the rules are tabulated. -/
theorem exchange {table : List RuleEntry} (h : s.Legal d) (htable : d.rules.Tabulated table)
    (c : Coord) :
    (∃ r ∈ RuleSet.reactionsOf table, (s.click c).status = .ok .success ∧
        s.board.Exchanges (s.click c).session.board r) ∨
      (s.click c).status ≠ .ok .success ∧ (s.click c).session.board = s.board := by
  have hcases := s.clicksTo_click c
  generalize s.click c = result at hcases
  cases hcases with
  | tested p o hc hp hselect ho =>
    cases o with
    | success m =>
      obtain ⟨hstatus, hfires⟩ := h.fires hc hp ho
      have hm := ho
      rw [testWith, h.definition_eq] at hm
      obtain ⟨r, hr, -, hperm⟩ := htable.exists_reaction hm
      exact .inl ⟨r, hr, hstatus, hfires.exchanges (h.nodup_append hc) hperm⟩
    | pending => exact .inr ⟨by simp [clickOutcome], rfl⟩
    | failure => exact .inr ⟨by simp [clickOutcome], rfl⟩
  | _ => exact .inr ⟨by simp, rfl⟩

end Legal

end Session

end HexRules
