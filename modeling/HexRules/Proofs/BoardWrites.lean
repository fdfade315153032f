import HexRules.Play.Session
import Mathlib.Data.List.Forall2
import Mathlib.Data.List.Nodup

/-!
# Writing many cells

Replacements are written cell by cell.  When the cells are on the board no write fails, and when
they are distinct every cell holds in the end what was written to it; all other cells hold what they
held.  No write changes which cells a board has.

    b.get? c = some p → b.inBounds c = true                              (inBounds_of_get?)
    cells on the board → replaceAll writes b = (.ok (), b')              (exists_replaceAll)
    cells on the board, none twice →
      replaceAll (cells.zip pieces) b = (.ok (), b'), the cells hold the pieces in b', and
      all other cells hold in b' what they hold in b                     (replaceAll_zip)
-/

namespace HexRules

namespace Board

variable {α : Type}

/-- Off the board there are no pieces. -/
theorem inBounds_of_get? {b : Board α} {c : Coord} {p : α} (h : b.get? c = some p) :
    b.inBounds c = true := by
  unfold get? at h
  unfold inBounds
  cases hc : b.cells[c]? with
  | none => simp [hc] at h
  | some content =>
    rw [← Std.HashMap.mem_iff_contains, Std.HashMap.mem_iff_isSome_getElem?, hc]
    rfl

theorem inBounds_put (b : Board α) (c d : Coord) (piece : Option α) (h : b.inBounds c = true) :
    (b.put c piece h).inBounds d = b.inBounds d := by
  rw [Bool.eq_iff_iff, inBounds_iff_mem, inBounds_iff_mem]
  rfl

theorem inBounds_of_set {b b' : Board α} {c : Coord} {p q : Option α}
    (h : b.set c p = .ok (q, b')) (e : Coord) : b'.inBounds e = b.inBounds e := by
  unfold set at h
  split at h
  · rename_i hc
    cases Except.ok.inj h
    exact inBounds_put b c e p hc
  · cases h

theorem mem_occupied_iff (b : Board α) (c : Coord) :
    c ∈ b.occupied ↔ (b.get? c).isSome = true := by
  rw [occupied, List.mem_filter]
  constructor
  · exact And.right
  · intro h
    obtain ⟨p, hp⟩ := Option.isSome_iff_exists.1 h
    exact ⟨(b.inBounds_iff_mem c).1 (inBounds_of_get? hp), h⟩

end Board

namespace Session

theorem replaceAll_cons (c : Coord) (p : Option Piece) (rest : List (Coord × Option Piece))
    (b : Board Piece) (h : b.inBounds c = true) :
    replaceAll ((c, p) :: rest) b = replaceAll rest (b.put c p h) := by
  rw [replaceAll, Board.set, dif_pos h]

/-- However often a cell is written. -/
theorem exists_replaceAll (writes : List (Coord × Option Piece)) (b : Board Piece)
    (hin : ∀ w ∈ writes, b.inBounds w.1 = true) :
    ∃ b', replaceAll writes b = (.ok (), b') ∧ ∀ c, b'.inBounds c = b.inBounds c := by
  induction writes generalizing b with
  | nil => exact ⟨b, rfl, fun _ => rfl⟩
  | cons w rest ih =>
    obtain ⟨c, p⟩ := w
    have hc := hin (c, p) List.mem_cons_self
    have hrest : ∀ w ∈ rest, (b.put c p hc).inBounds w.1 = true := by
      intro w hw
      rw [Board.inBounds_put]
      exact hin w (List.mem_cons_of_mem _ hw)
    obtain ⟨b', hok, hbounds⟩ := ih (b.put c p hc) hrest
    refine ⟨b', by rw [replaceAll_cons c p rest b hc, hok], fun e => ?_⟩
    rw [hbounds, Board.inBounds_put]

theorem replaceAll_of_inBounds (writes : List (Coord × Option Piece)) (b : Board Piece)
    (hin : ∀ w ∈ writes, b.inBounds w.1 = true) (hnodup : (writes.map Prod.fst).Nodup) :
    ∃ b', replaceAll writes b = (.ok (), b') ∧ (∀ w ∈ writes, b'.get? w.1 = w.2) ∧
      ∀ c, c ∉ writes.map Prod.fst → b'.get? c = b.get? c := by
  induction writes generalizing b with
  | nil => exact ⟨b, rfl, by simp, fun c _ => rfl⟩
  | cons w rest ih =>
    obtain ⟨c, p⟩ := w
    obtain ⟨hc, hrest⟩ := List.nodup_cons.1 hnodup
    have hb := hin (c, p) List.mem_cons_self
    have hin' : ∀ w ∈ rest, (b.put c p hb).inBounds w.1 = true := by
      intro w hw
      rw [Board.inBounds_put]
      exact hin w (List.mem_cons_of_mem _ hw)
    obtain ⟨b', hok, hwritten, hothers⟩ := ih (b.put c p hb) hin' hrest
    refine ⟨b', by rw [replaceAll_cons c p rest b hb, hok], ?_, ?_⟩
    · intro w hw
      rcases List.mem_cons.1 hw with rfl | hw
      · -- the cell is not written again
        rw [hothers c hc, Board.get?_put, if_pos rfl]
      · exact hwritten w hw
    · intro d hd
      rw [List.map_cons, List.mem_cons, not_or] at hd
      rw [hothers d hd.2, Board.get?_put, if_neg hd.1]

theorem replaceAll_zip (cells : List Coord) (pieces : List (Option Piece)) (b : Board Piece)
    (hlen : cells.length = pieces.length) (hin : ∀ c ∈ cells, b.inBounds c = true)
    (hnodup : cells.Nodup) :
    ∃ b', replaceAll (cells.zip pieces) b = (.ok (), b') ∧
      List.Forall₂ (fun c p => b'.get? c = p) cells pieces ∧
      ∀ c, c ∉ cells → b'.get? c = b.get? c := by
  have hfst : (cells.zip pieces).map Prod.fst = cells := List.map_fst_zip (Nat.le_of_eq hlen)
  obtain ⟨b', hok, hwritten, hothers⟩ := replaceAll_of_inBounds (cells.zip pieces) b
    (fun w hw => hin w.1 (List.of_mem_zip hw).1) (by rw [hfst]; exact hnodup)
  rw [hfst] at hothers
  refine ⟨b', hok, List.forall₂_iff_zip.2 ⟨hlen, ?_⟩, hothers⟩
  intro c p hcp
  exact hwritten (c, p) hcp

end Session

end HexRules
