import HexRules.Eval.Expression
import Mathlib.Data.List.Rotate
import Mathlib.Order.MinMax

/-!
# Runs of empty neighbours

The neighbours of a cell stand in a circle, so a run of empty ones may go on past the end of the
list.  It stands at the front when the list is turned to where the run begins, and then its cells
can be compared one by one on two boards.

    n ≤ longestOpenRun occupied ↔ HasOpenRun n occupied                  (le_longestOpenRun_iff)
    a neighbour that is occupied in ctx' is so in ctx →
      ctx.openRunLength ≤ ctx'.openRunLength                             (openRunLength_mono)
-/

namespace HexRules

/-- Turned in some way the list begins with `n` times `false`. -/
def HasOpenRun (n : Nat) (occupied : List Bool) : Prop :=
  ∃ turned, turned.IsRotated occupied ∧ List.replicate n false <+: turned

/-! ## Runs in a list -/

/-- A run from the start of a list ends at the first `true`. -/
theorem replicate_prefix_append_true (n : Nat) (xs ys : List Bool) :
    List.replicate n false <+: xs ++ true :: ys ↔ List.replicate n false <+: xs := by
  induction xs generalizing n with
  | nil => cases n <;> simp [List.replicate_succ]
  | cons x xs ih => cases n <;> simp [List.replicate_succ, List.cons_prefix_cons, ih]

/-- A run lies on one side of each `true`. -/
theorem replicate_infix_append_true (n : Nat) (xs ys : List Bool) :
    List.replicate n false <:+: xs ++ true :: ys ↔
      List.replicate n false <:+: xs ∨ List.replicate n false <:+: ys := by
  induction xs with
  | nil => cases n <;> simp [List.infix_cons_iff, List.replicate_succ]
  | cons x xs ih =>
    rw [List.cons_append, List.infix_cons_iff, List.infix_cons_iff, ih, ← List.cons_append,
      replicate_prefix_append_true, or_assoc]

theorem replicate_prefix_replicate {n m : Nat} (h : n ≤ m) :
    List.replicate n false <+: List.replicate m false := by
  refine ⟨List.replicate (m - n) false, ?_⟩
  rw [List.replicate_append_replicate, Nat.add_sub_cancel' h]

theorem replicate_infix_replicate (n m : Nat) :
    List.replicate n false <:+: List.replicate m false ↔ n ≤ m := by
  constructor
  · intro h
    have hlen := h.length_le
    rwa [List.length_replicate, List.length_replicate] at hlen
  · intro h
    exact (replicate_prefix_replicate h).isInfix

/-- The run that is going on counts with those that are closed. -/
theorem le_longestClosedRun_iff (n : Nat) (bs : List Bool) (run longest : Nat) :
    n ≤ longestClosedRun run longest (bs ++ [true]) ↔
      n ≤ longest ∨ List.replicate n false <:+: List.replicate run false ++ (bs ++ [true]) := by
  induction bs generalizing run longest with
  | nil =>
    rw [List.nil_append, replicate_infix_append_true, replicate_infix_replicate, longestClosedRun,
      longestClosedRun, le_max_iff]
    cases n <;> simp [List.replicate_succ]
  | cons b bs ih =>
    cases b with
    | true =>
      rw [List.cons_append, longestClosedRun, ih, replicate_infix_append_true,
        replicate_infix_replicate, le_max_iff, List.replicate_zero, List.nil_append, or_assoc]
    | false =>
      rw [List.cons_append, longestClosedRun, ih, List.replicate_succ', List.append_assoc]
      rfl

/-! ## Runs in a circle -/

theorem HasOpenRun.of_isRotated {n : Nat} {xs ys : List Bool} (h : HasOpenRun n xs)
    (hrotated : xs.IsRotated ys) : HasOpenRun n ys := by
  obtain ⟨turned, hturned, hrun⟩ := h
  exact ⟨turned, hturned.trans hrotated, hrun⟩

/-- With a `true` at the end no run goes past it. -/
theorem hasOpenRun_append_true_iff (n : Nat) (bs : List Bool) :
    HasOpenRun n (bs ++ [true]) ↔ List.replicate n false <:+: bs ++ [true] := by
  constructor
  · rintro ⟨turned, hturned, hrun⟩
    obtain ⟨k, hk, rfl⟩ := List.isRotated_iff_mod.1 hturned.symm
    rw [List.rotate_eq_drop_append_take hk] at hrun
    rw [List.length_append, List.length_singleton] at hk
    by_cases hend : k ≤ bs.length
    · rw [List.drop_append_of_le_length hend, List.append_assoc, List.singleton_append,
        replicate_prefix_append_true] at hrun
      exact (hrun.isInfix.trans (List.drop_suffix k bs).isInfix).trans
        (List.prefix_append bs [true]).isInfix
    · -- turned all the way round
      rw [List.drop_eq_nil_of_le (by simp; omega), List.take_of_length_le (by simp; omega)] at hrun
      exact hrun.isInfix
  · rintro ⟨front, back, heq⟩
    refine ⟨List.replicate n false ++ (back ++ front), ?_, List.prefix_append _ _⟩
    rw [← heq, List.append_assoc]
    refine List.IsRotated.symm ⟨front.length, ?_⟩
    rw [List.rotate_append_length_eq, List.append_assoc]

/-- The runs are looked for in the list turned so that it ends with a `true`. -/
theorem longestOpenRun_of_mem {occupied : List Bool} (hmem : true ∈ occupied) :
    ∃ bs, (bs ++ [true]).IsRotated occupied ∧
      longestOpenRun occupied = longestClosedRun 0 0 (bs ++ [true]) := by
  have hlt : occupied.idxOf true < occupied.length := List.idxOf_lt_length_iff.2 hmem
  have htake : occupied.take (occupied.idxOf true + 1) =
      occupied.take (occupied.idxOf true) ++ [true] := by
    rw [List.take_add_one, List.getElem?_eq_getElem hlt, List.getElem_idxOf hlt]
    rfl
  refine ⟨occupied.drop (occupied.idxOf true + 1) ++ occupied.take (occupied.idxOf true), ?_, ?_⟩
  · refine List.IsRotated.symm ⟨occupied.idxOf true + 1, ?_⟩
    rw [List.rotate_eq_drop_append_take hlt, htake, List.append_assoc]
  · simp only [longestOpenRun, if_pos hmem, htake, List.append_assoc]

theorem hasOpenRun_replicate_iff (n m : Nat) : HasOpenRun n (List.replicate m false) ↔ n ≤ m := by
  constructor
  · rintro ⟨turned, hturned, hrun⟩
    have hlen := hrun.length_le
    rwa [List.length_replicate, hturned.perm.length_eq, List.length_replicate] at hlen
  · exact fun h => ⟨_, List.IsRotated.refl _, replicate_prefix_replicate h⟩

/-- The longest run is as long as some run, and no run is longer. -/
theorem le_longestOpenRun_iff (n : Nat) (occupied : List Bool) :
    n ≤ longestOpenRun occupied ↔ HasOpenRun n occupied := by
  by_cases hmem : true ∈ occupied
  · obtain ⟨bs, hrotated, hclosed⟩ := longestOpenRun_of_mem hmem
    rw [hclosed, le_longestClosedRun_iff, List.replicate_zero, List.nil_append,
      ← hasOpenRun_append_true_iff]
    refine ⟨?_, fun h => .inr (h.of_isRotated hrotated.symm)⟩
    rintro (hzero | h)
    · exact ⟨occupied, List.IsRotated.refl _, by simp [Nat.le_zero.1 hzero]⟩
    · exact h.of_isRotated hrotated
  · have hall : occupied = List.replicate occupied.length false :=
      List.eq_replicate_of_mem fun b hb => by
        cases b with
        | true => exact absurd hb hmem
        | false => rfl
    rw [longestOpenRun, if_neg hmem, ← hasOpenRun_replicate_iff, ← hall]

/-- A run may go past the end of the list. -/
example : longestOpenRun [false, true, true, false, false, false] = 4 := by decide

/-! ## Two boards -/

/-- Cells that are empty here and there, and perhaps more of them there. -/
theorem HasOpenRun.map_mono {α : Type} {n : Nat} {cells : List α} {f g : α → Bool}
    (hfg : ∀ c, f c = false → g c = false) (h : HasOpenRun n (cells.map f)) :
    HasOpenRun n (cells.map g) := by
  obtain ⟨turned, hturned, hrun⟩ := h
  obtain ⟨k, rfl⟩ := hturned.symm
  refine ⟨(cells.rotate k).map g, List.IsRotated.map (List.IsRotated.symm ⟨k, rfl⟩) g, ?_⟩
  rw [← List.map_rotate, List.prefix_iff_eq_take, List.length_replicate, ← List.map_take] at hrun
  have hempty : ∀ c ∈ (cells.rotate k).take n, f c = false := fun c hc =>
    List.eq_of_mem_replicate (hrun ▸ List.mem_map_of_mem hc)
  have hlen := congrArg List.length hrun
  rw [List.length_replicate, List.length_map] at hlen
  rw [List.prefix_iff_eq_take, List.length_replicate, ← List.map_take, eq_comm,
    List.eq_replicate_iff, List.length_map]
  refine ⟨hlen.symm, fun b hb => ?_⟩
  obtain ⟨c, hc, rfl⟩ := List.mem_map.1 hb
  exact hfg c (hempty c hc)

/-- The longest run around a cell gets no shorter where pieces leave the board. -/
theorem Context.openRunLength_mono {ctx ctx' : Context} (hpos : ctx'.pos = ctx.pos)
    (h : ∀ c, (ctx'.game.board.get? c).isSome = true → (ctx.game.board.get? c).isSome = true) :
    ctx.openRunLength ≤ ctx'.openRunLength := by
  have hrun := (le_longestOpenRun_iff _ ctx.occupiedNeighbors).1 (Nat.le_refl _)
  refine (le_longestOpenRun_iff _ ctx'.occupiedNeighbors).2 ?_
  rw [occupiedNeighbors, hpos]
  refine hrun.map_mono fun c hempty => ?_
  rw [← Bool.not_eq_true] at hempty ⊢
  exact fun hoccupied => hempty (h c hoccupied)

end HexRules
