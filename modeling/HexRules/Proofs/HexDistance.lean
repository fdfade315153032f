import HexRules.Proofs.HexRange
import Mathlib.Order.Bounds.Defs

/-!
# Distance as a number of steps

One step leads to a neighbour, and the neighbours of a cell are the cells at distance one from it.
From a cell that is not the goal some step leads nearer, so there is a path of as many steps as the
distance; no step leads nearer by more than one, so no path is shorter.

    b ∈ a.neighbors ↔ distance a b = 1                                   (mem_neighbors_iff)
    distance a b = n + 1 → ∃ c ∈ a.neighbors, distance c b = n           (exists_nearer_neighbor)
    Path (distance a b) a b                                              (path_distance)
    Path n a b → distance a b ≤ n                                        (Path.distance_le)
-/

namespace HexRules

namespace Coord

theorem distance_comm (a b : Coord) : distance a b = distance b a := by
  unfold distance
  omega

/-- The sum that is halved is even. -/
theorem two_mul_distance (a b : Coord) :
    2 * distance a b =
      (a.q - b.q).natAbs + (a.r - b.r).natAbs + (a.q - b.q + (a.r - b.r)).natAbs := by
  unfold distance
  omega

theorem distance_eq_zero_iff (a b : Coord) : distance a b = 0 ↔ a = b := by
  rw [← mem_ring_iff, ring, if_pos rfl, List.mem_singleton]

theorem distance_self (a : Coord) : distance a a = 0 := (distance_eq_zero_iff a a).2 rfl

/-! ## Single steps -/

theorem ring_one (a : Coord) : ring 1 a = corners.map a.add := by
  simp [ring, side, corners, directions, add, times]

/-- The neighbours of a cell are the ring around it. -/
theorem mem_neighbors_iff (a b : Coord) : b ∈ a.neighbors ↔ distance a b = 1 := by
  have hcorners : directions.Perm corners := by decide
  rw [distance_comm, ← mem_ring_iff, ring_one, neighbors]
  exact (hcorners.map a.add).mem_iff

/-- The side of the ring on which a cell lies tells the way back to the middle. -/
theorem exists_nearer_neighbor {n : Nat} {a b : Coord} (h : distance a b = n + 1) :
    ∃ c ∈ a.neighbors, distance c b = n := by
  have hnear : ∀ along ∈ directions, distance (a.add along) b = n →
      ∃ c ∈ a.neighbors, distance c b = n :=
    fun along halong hn => ⟨a.add along, List.mem_map_of_mem halong, hn⟩
  rcases (distance_eq_iff (n + 1) b a n.succ_pos).1 h with h | h | h | h | h | h
  · refine hnear ⟨1, -1⟩ (by decide) ?_
    simp only [distance, add]
    omega
  · refine hnear ⟨0, -1⟩ (by decide) ?_
    simp only [distance, add]
    omega
  · refine hnear ⟨-1, 0⟩ (by decide) ?_
    simp only [distance, add]
    omega
  · refine hnear ⟨-1, 1⟩ (by decide) ?_
    simp only [distance, add]
    omega
  · refine hnear ⟨0, 1⟩ (by decide) ?_
    simp only [distance, add]
    omega
  · refine hnear ⟨1, 0⟩ (by decide) ?_
    simp only [distance, add]
    omega

/-- One step leads nearer to any cell by one at most. -/
theorem distance_le_of_mem_neighbors {a b : Coord} (h : b ∈ a.neighbors) (c : Coord) :
    distance a c ≤ distance b c + 1 := by
  obtain ⟨along, halong, rfl⟩ := List.mem_map.1 h
  simp only [directions, List.mem_cons, List.not_mem_nil, or_false] at halong
  rcases halong with rfl | rfl | rfl | rfl | rfl | rfl <;>
  · simp only [distance, add]
    omega

/-! ## Paths -/

/-- `n` steps, each to a neighbour, lead from one cell to another. -/
inductive Path : Nat → Coord → Coord → Prop
  | here (a : Coord) : Path 0 a a
  | step {n : Nat} {a b c : Coord} : b ∈ a.neighbors → Path n b c → Path (n + 1) a c

namespace Path

variable {m n : Nat} {a b c : Coord}

theorem append (h : Path m a b) (h' : Path n b c) : Path (m + n) a c := by
  induction h with
  | here a => rwa [Nat.zero_add]
  | step hstep _ ih =>
    rw [Nat.add_right_comm]
    exact .step hstep (ih h')

theorem distance_le (h : Path n a b) : distance a b ≤ n := by
  induction h with
  | here a => exact Nat.le_of_eq (distance_self a)
  | @step n a b c hstep _ ih =>
    have hnear := distance_le_of_mem_neighbors hstep c
    omega

end Path

/-- The induction is on the distance: the first step goes to a nearer neighbour. -/
theorem path_distance (a b : Coord) : Path (distance a b) a b := by
  generalize hn : distance a b = n
  induction n generalizing a with
  | zero =>
    obtain rfl := (distance_eq_zero_iff a b).1 hn
    exact .here a
  | succ n ih =>
    obtain ⟨c, hc, hnear⟩ := exists_nearer_neighbor hn
    exact .step hc (ih c hnear)

theorem distance_triangle (a b c : Coord) : distance a c ≤ distance a b + distance b c :=
  ((path_distance a b).append (path_distance b c)).distance_le

end Coord

open Coord

/-- **The distance of two cells is the least number of steps between them.**  Each step leads to a
neighbour; the sum that is halved for the distance is even.  So the distance is that of a metric,
and the neighbours of a cell are the cells at distance one. -/
theorem distance_least_steps (a b : Coord) :
    IsLeast {n | Path n a b} (distance a b) ∧
      2 * distance a b =
        (a.q - b.q).natAbs + (a.r - b.r).natAbs + (a.q - b.q + (a.r - b.r)).natAbs ∧
      distance a b = distance b a ∧
      (∀ c, distance a c ≤ distance a b + distance b c) ∧
      (distance a b = 0 ↔ a = b) ∧
      (b ∈ a.neighbors ↔ distance a b = 1) :=
  ⟨⟨path_distance a b, fun _ hpath => hpath.distance_le⟩, two_mul_distance a b, distance_comm a b,
    distance_triangle a b, distance_eq_zero_iff a b, mem_neighbors_iff a b⟩

end HexRules
