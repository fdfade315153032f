import HexRules.Proofs.BoardWrites
import HexRules.Proofs.HexRange

/-!
# Pieces on a board

A board lists every cell once, so writing a cell exchanges one piece: the pieces on the board lose
what the cell held and gain what is written.  `b.Gains b' placed` says that `b'` is `b` with the
pieces `placed` on cells that were empty.

    (b.get? c).toList ++ (b.put c piece h).pieces ~ piece.toList ++ b.pieces  (perm_pieces_put)
    b.tryInsert c piece needsNeighbor = some b' ↔ the cell is empty and, if asked, beside a piece,
      and b' has the piece there                                         (tryInsert_eq_some_iff)
    b.tryInsert c piece needsNeighbor = some b' → b.Gains b' [piece]     (gains_of_tryInsert)
-/

namespace HexRules

namespace Board

variable {α : Type}

theorem nodup_coords (b : Board α) : b.coords.Nodup := Coord.nodup_hexRange b.radius Coord.origin

theorem nodup_occupied (b : Board α) : b.occupied.Nodup := b.nodup_coords.filter _

theorem pieces_empty (radius : Nat) : (empty radius : Board α).pieces = [] := by
  rw [pieces, List.filterMap_eq_nil_iff]
  exact fun c _ => get?_empty radius c

theorem mem_pieces_iff (b : Board α) (p : α) : p ∈ b.pieces ↔ ∃ c, b.get? c = some p := by
  rw [pieces, List.mem_filterMap]
  constructor
  · rintro ⟨c, -, hc⟩
    exact ⟨c, hc⟩
  · rintro ⟨c, hc⟩
    exact ⟨c, (b.inBounds_iff_mem c).1 (inBounds_of_get? hc), hc⟩

/-- Only the cell that is written shows another piece. -/
theorem perm_pieces_put (b : Board α) (c : Coord) (piece : Option α) (h : b.inBounds c = true) :
    ((b.get? c).toList ++ (b.put c piece h).pieces).Perm (piece.toList ++ b.pieces) := by
  have hmem : c ∈ b.coords := (b.inBounds_iff_mem c).1 h
  obtain ⟨before, after, hsplit⟩ := List.append_of_mem hmem
  have hnodup := b.nodup_coords
  rw [hsplit, List.nodup_middle, List.nodup_cons, List.mem_append, not_or] at hnodup
  obtain ⟨⟨hbefore, hafter⟩, -⟩ := hnodup
  have hkeeps : ∀ cells : List Coord, c ∉ cells →
      cells.filterMap (b.put c piece h).get? = cells.filterMap b.get? := by
    intro cells hc
    refine List.filterMap_congr fun d hd => ?_
    have hdc : d ≠ c := fun heq => hc (heq ▸ hd)
    rw [get?_put, if_neg hdc]
  have hone : ∀ b' : Board α, b'.coords = b.coords →
      b'.pieces = before.filterMap b'.get? ++ ((b'.get? c).toList ++ after.filterMap b'.get?) := by
    intro b' hcoords
    rw [pieces, hcoords, hsplit, List.filterMap_append, List.filterMap_cons]
    cases b'.get? c <;> rfl
  rw [hone b rfl, hone (b.put c piece h) rfl, hkeeps before hbefore, hkeeps after hafter, get?_put,
    if_pos rfl]
  have hold := List.perm_append_comm_assoc (b.get? c).toList (before.filterMap b.get?)
    (piece.toList ++ after.filterMap b.get?)
  have hswap := List.perm_append_comm_assoc (b.get? c).toList piece.toList
    (after.filterMap b.get?)
  have hnew := List.perm_append_comm_assoc (before.filterMap b.get?) piece.toList
    ((b.get? c).toList ++ after.filterMap b.get?)
  exact hold.trans ((hswap.append_left _).trans hnew)

/-! ## Pieces that are added -/

/-- `b'` is `b` with the pieces `placed` on cells of their own that were empty. -/
structure Gains (b b' : Board α) (placed : List α) : Prop where
  radius_eq : b'.radius = b.radius
  perm : b'.pieces.Perm (placed ++ b.pieces)
  keeps : ∀ c p, b.get? c = some p → b'.get? c = some p

namespace Gains

variable {b b' b'' : Board α} {placed placed' : List α}

theorem refl (b : Board α) : b.Gains b [] := ⟨rfl, List.Perm.refl _, fun _ _ h => h⟩

theorem trans (h : b.Gains b' placed) (h' : b'.Gains b'' placed') :
    b.Gains b'' (placed ++ placed') := by
  refine ⟨h'.radius_eq.trans h.radius_eq, ?_, fun c p hp => h'.keeps c p (h.keeps c p hp)⟩
  have hboth := h'.perm.trans (h.perm.append_left placed')
  rw [List.append_assoc]
  exact hboth.trans (List.perm_append_comm_assoc placed' placed b.pieces)

end Gains

theorem hasNeighbor_iff (b : Board α) (c : Coord) :
    b.hasNeighbor c = true ↔ ∃ d ∈ c.neighbors, (b.get? d).isSome = true := by
  rw [hasNeighbor, List.any_eq_true]

/-- A piece that is beside another one stays so. -/
theorem Gains.hasNeighbor {b b' : Board α} {placed : List α} (h : b.Gains b' placed) {c : Coord}
    (hc : b.hasNeighbor c = true) : b'.hasNeighbor c = true := by
  obtain ⟨d, hd, hsome⟩ := (b.hasNeighbor_iff c).1 hc
  obtain ⟨p, hp⟩ := Option.isSome_iff_exists.1 hsome
  exact (b'.hasNeighbor_iff c).2 ⟨d, hd, Option.isSome_iff_exists.2 ⟨p, h.keeps d p hp⟩⟩

/-- A piece goes on a cell of the board that is empty, and if so asked only beside another one. -/
theorem tryInsert_eq_some_iff {b b' : Board α} {c : Coord} {piece : α} {needsNeighbor : Bool} :
    b.tryInsert c piece needsNeighbor = some b' ↔
      ∃ hc, b.get? c = none ∧ (needsNeighbor = true → b.hasNeighbor c = true) ∧
        b' = b.put c (some piece) hc := by
  unfold tryInsert
  constructor
  · intro h
    split at h
    case isFalse => cases h
    case isTrue hc =>
      split at h
      · cases h
      · rename_i hempty
        split at h
        · cases h
        · rename_i hbeside
          refine ⟨hc, by simpa using hempty, fun hneeds => ?_, (Option.some.inj h).symm⟩
          simpa [hneeds] using hbeside
  · rintro ⟨hc, hempty, hbeside, rfl⟩
    rw [dif_pos hc, hempty]
    cases needsNeighbor with
    | false => rfl
    | true => simp [hbeside rfl]

theorem gains_of_tryInsert {b b' : Board α} {c : Coord} {piece : α} {needsNeighbor : Bool}
    (h : b.tryInsert c piece needsNeighbor = some b') : b.Gains b' [piece] := by
  obtain ⟨hc, hempty, -, rfl⟩ := tryInsert_eq_some_iff.1 h
  refine ⟨rfl, ?_, ?_⟩
  · have hperm := b.perm_pieces_put c (some piece) hc
    rw [hempty] at hperm
    exact hperm
  · intro d p hp
    have hdc : d ≠ c := by
      rintro rfl
      rw [hempty] at hp
      cases hp
    rw [get?_put, if_neg hdc, hp]

end Board

end HexRules
