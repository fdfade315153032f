import HexRules.Hex.Coord
import Mathlib.Data.List.Nodup
import Mathlib.Tactic.Ring

/-!
# Cells by their distance

A ring is walked side by side, each side from its corner up to, but not including, the next one.  So
a ring lists the cells at its distance, each of them once.  Different rings have no cell in common,
so no cell comes twice in the rings up to a distance.

    c ∈ ring n a ↔ distance c a = n                                      (mem_ring_iff)
    c ∈ hexRange n a ↔ distance c a ≤ n                                  (mem_hexRange_iff)
    (ring n a).Nodup                                                     (nodup_ring)
    (hexRange n a).Nodup                                                 (nodup_hexRange)
    (ring n a).length = 6 * n                                            (length_ring)
    (hexRange n a).length = 1 + 3 * n * (n + 1)                          (length_hexRange)
-/

namespace HexRules

namespace Coord

theorem eq_of_coordinates {c d : Coord} (hq : c.q = d.q) (hr : c.r = d.r) : c = d := by
  cases c
  cases d
  rw [mk.injEq]
  exact ⟨hq, hr⟩

theorem mem_side_iff (n : Nat) (a corner along c : Coord) :
    c ∈ side n a corner along ↔
      ∃ i < n, c.q = a.q + n * corner.q + i * along.q ∧ c.r = a.r + n * corner.r + i * along.r := by
  simp only [side, List.mem_map, List.mem_range, add, times]
  constructor
  · rintro ⟨i, hi, rfl⟩
    exact ⟨i, hi, rfl, rfl⟩
  · rintro ⟨i, hi, hq, hr⟩
    exact ⟨i, hi, eq_of_coordinates hq.symm hr.symm⟩

/-- The six sides of a ring, each as what its cells have in common and where it begins and ends. -/
theorem distance_eq_iff (n : Nat) (a c : Coord) (hn : 0 < n) :
    distance c a = n ↔
      (c.r = a.r + n ∧ -n ≤ c.q - a.q ∧ c.q < a.q) ∨
      (c.q - a.q + (c.r - a.r) = n ∧ a.q ≤ c.q ∧ a.r < c.r) ∨
      (c.q = a.q + n ∧ -n < c.r - a.r ∧ c.r ≤ a.r) ∨
      (c.r = a.r - n ∧ a.q < c.q ∧ c.q - a.q ≤ n) ∨
      (c.q - a.q + (c.r - a.r) = -n ∧ c.q ≤ a.q ∧ c.r < a.r) ∨
      (c.q = a.q - n ∧ a.r ≤ c.r ∧ c.r - a.r < n) := by
  unfold distance
  omega

theorem mem_ring_iff (n : Nat) (a c : Coord) : c ∈ ring n a ↔ distance c a = n := by
  rcases Nat.eq_zero_or_pos n with rfl | hn
  · rw [ring, if_pos rfl, List.mem_singleton, distance]
    constructor
    · rintro rfl
      omega
    · intro h
      exact eq_of_coordinates (by omega) (by omega)
  · rw [distance_eq_iff n a c hn, ring, if_neg (by omega)]
    simp only [corners, directions, List.zip_cons_cons, List.zip_nil_right, List.flatMap_cons,
      List.flatMap_nil, List.mem_append, mem_side_iff, List.not_mem_nil, or_false]
    constructor
    · rintro (⟨i, hi, hq, hr⟩ | ⟨i, hi, hq, hr⟩ | ⟨i, hi, hq, hr⟩ | ⟨i, hi, hq, hr⟩ |
        ⟨i, hi, hq, hr⟩ | ⟨i, hi, hq, hr⟩) <;> omega
    · rintro (h | h | h | h | h | h)
      · exact .inl ⟨(c.q - a.q + n).toNat, by omega, by omega, by omega⟩
      · exact .inr (.inl ⟨(c.q - a.q).toNat, by omega, by omega, by omega⟩)
      · exact .inr (.inr (.inl ⟨(a.r - c.r).toNat, by omega, by omega, by omega⟩))
      · exact .inr (.inr (.inr (.inl ⟨(a.q + n - c.q).toNat, by omega, by omega, by omega⟩)))
      · exact .inr (.inr (.inr (.inr (.inl ⟨(a.q - c.q).toNat, by omega, by omega, by omega⟩))))
      · exact .inr (.inr (.inr (.inr (.inr ⟨(c.r - a.r).toNat, by omega, by omega, by omega⟩))))

theorem mem_hexRange_iff (n : Nat) (a c : Coord) : c ∈ hexRange n a ↔ distance c a ≤ n := by
  simp only [hexRange, List.mem_flatMap, List.mem_range, mem_ring_iff]
  constructor
  · rintro ⟨step, hstep, rfl⟩
    omega
  · intro h
    exact ⟨distance c a, by omega, rfl⟩

/-! ## No cell twice -/

/-- A side goes on in one direction. -/
theorem nodup_side (n : Nat) (a corner along : Coord) (h : along ∈ directions) :
    (side n a corner along).Nodup := by
  refine List.nodup_range.map ?_
  intro i j hij
  simp only [directions, List.mem_cons, List.not_mem_nil, or_false] at h
  rcases h with rfl | rfl | rfl | rfl | rfl | rfl <;>
  · simp only [add, times, mk.injEq] at hij
    omega

theorem nodup_ring (n : Nat) (a : Coord) : (ring n a).Nodup := by
  unfold ring
  split
  · exact List.nodup_singleton a
  · rw [List.nodup_flatMap]
    constructor
    · intro pair hpair
      exact nodup_side n a pair.1 pair.2 (List.of_mem_zip hpair).2
    · -- a corner belongs to the side that begins there only
      simp only [corners, directions, List.zip_cons_cons, List.zip_nil_right, List.pairwise_cons,
        List.forall_mem_cons, Function.onFun, List.disjoint_left, mem_side_iff]
      simp only [List.not_mem_nil, false_implies, implies_true, and_true, List.Pairwise.nil]
      refine ⟨⟨?_, ?_, ?_, ?_, ?_⟩, ⟨?_, ?_, ?_, ?_⟩, ⟨?_, ?_, ?_⟩, ⟨?_, ?_⟩, ?_⟩
      all_goals
        rintro c ⟨i, hi, hq, hr⟩ ⟨j, hj, hq', hr'⟩
        omega

theorem nodup_hexRange (n : Nat) (a : Coord) : (hexRange n a).Nodup := by
  rw [hexRange, List.nodup_flatMap]
  refine ⟨fun step _ => nodup_ring step a, List.pairwise_lt_range.imp ?_⟩
  intro i j hij c hi hj
  rw [mem_ring_iff] at hi hj
  omega

/-! ## How many cells -/

/-- Six sides, each without its far end. -/
theorem length_ring {n : Nat} (hn : 0 < n) (a : Coord) : (ring n a).length = 6 * n := by
  rw [ring, if_neg (Nat.ne_of_gt hn)]
  simp only [corners, directions, List.zip_cons_cons, List.zip_nil_right, List.flatMap_cons,
    List.flatMap_nil, List.length_append, List.length_nil, side, List.length_map, List.length_range]
  omega

theorem hexRange_succ (n : Nat) (a : Coord) :
    hexRange (n + 1) a = hexRange n a ++ ring (n + 1) a := by
  rw [hexRange, List.range_succ, List.flatMap_append, List.flatMap_singleton]
  rfl

theorem length_hexRange (n : Nat) (a : Coord) : (hexRange n a).length = 1 + 3 * n * (n + 1) := by
  induction n with
  | zero => rfl
  | succ n ih =>
    rw [hexRange_succ, List.length_append, ih, length_ring (by omega)]
    ring

end Coord

end HexRules
