import HexRules.Proofs.DealtBoard
import HexRules.Proofs.HexDistance
import Mathlib.Data.List.Cycle
import Mathlib.Tactic.Ring

/-!
# Rings as walks

A ring is what one sees of the cells on a walk around it: from one corner `n` steps along each of
the six directions, noting each cell before it is left.  The walk comes back to where it began, so
the cells follow one another around the ring.

The cells up to a distance are the cells of a board, and a deal has room for as many pieces as cells
are free.

    walk (a.add (times n corner)) (alongs.flatMap (replicate n)) =
      ((walk corner alongs).zip alongs).flatMap fun pair => side n a pair.1 pair.2  (walk_scaled)
    ring n a = walk (a.add (times n ⟨-1, 1⟩)) (directions.flatMap (replicate n))    (ring_eq_walk)
    walkEnd c steps = c → Cycle.Chain neighbours (walk c steps)                     (chain_walk)
    capacity n center = (firstBoard n center).freeCells.length       (capacity_eq_length_freeCells)
-/

namespace HexRules

namespace Coord

/-! ## Walks -/

/-- The cells from which the steps of a walk are made. -/
def walk : Coord → List Coord → List Coord
  | _, [] => []
  | c, along :: steps => c :: walk (c.add along) steps

/-- Where a walk leads. -/
def walkEnd (c : Coord) (steps : List Coord) : Coord := steps.foldl add c

theorem walk_append (c : Coord) (steps steps' : List Coord) :
    walk c (steps ++ steps') = walk c steps ++ walk (walkEnd c steps) steps' := by
  induction steps generalizing c with
  | nil => rfl
  | cons along steps ih =>
    rw [List.cons_append, walk, ih]
    rfl

theorem add_times_zero (c along : Coord) : c.add (times 0 along) = c := by simp [add, times]

theorem add_times_succ (c along : Coord) (n : Nat) :
    c.add (times ((n + 1 : Nat) : Int) along) = (c.add along).add (times n along) := by
  simp only [add, times, mk.injEq]
  constructor <;> push_cast <;> ring

theorem walk_replicate (n : Nat) (c along : Coord) :
    walk c (List.replicate n along) =
      (List.range n).map fun (i : Nat) => c.add (times i along) := by
  induction n generalizing c with
  | zero => rfl
  | succ n ih =>
    rw [List.replicate_succ, walk, ih, List.range_succ_eq_map, List.map_cons, List.map_map]
    congr 1
    · exact (add_times_zero c along).symm
    · exact List.map_congr_left fun i _ => (add_times_succ c along i).symm

theorem walkEnd_replicate (n : Nat) (c along : Coord) :
    walkEnd c (List.replicate n along) = c.add (times n along) := by
  induction n generalizing c with
  | zero => exact (add_times_zero c along).symm
  | succ n ih => exact (ih (c.add along)).trans (add_times_succ c along n).symm

/-- A walk along `n` steps of each kind comes from corner to corner, `n` times as far out. -/
theorem add_times_add (n : Nat) (a corner along : Coord) :
    (a.add (times n corner)).add (times n along) = a.add (times n (corner.add along)) := by
  simp only [add, times, mk.injEq]
  constructor <;> ring

/-- Each step of a walk from corner to corner becomes a side. -/
theorem walk_scaled (n : Nat) (a corner : Coord) (alongs : List Coord) :
    walk (a.add (times n corner)) (alongs.flatMap (List.replicate n)) =
      ((walk corner alongs).zip alongs).flatMap fun pair => side n a pair.1 pair.2 := by
  induction alongs generalizing corner with
  | nil => rfl
  | cons along alongs ih =>
    rw [List.flatMap_cons, walk_append, walk_replicate, walkEnd_replicate, add_times_add, ih]
    rfl

theorem walkEnd_scaled (n : Nat) (a corner : Coord) (alongs : List Coord) :
    walkEnd (a.add (times n corner)) (alongs.flatMap (List.replicate n)) =
      a.add (times n (walkEnd corner alongs)) := by
  induction alongs generalizing corner with
  | nil => rfl
  | cons along alongs ih =>
    rw [List.flatMap_cons, walkEnd, List.foldl_append, ← walkEnd, ← walkEnd, walkEnd_replicate,
      add_times_add, ih]
    rfl

/-- The induction is on the steps, each of which leads to a neighbour. -/
theorem isChain_walk {steps : List Coord} (h : ∀ along ∈ steps, along ∈ directions) (c : Coord) :
    List.IsChain (fun c d => d ∈ c.neighbors) (walk c steps ++ [walkEnd c steps]) := by
  induction steps generalizing c with
  | nil => exact List.isChain_singleton c
  | cons along steps ih =>
    obtain ⟨halong, hsteps⟩ := List.forall_mem_cons.1 h
    have hnext : c.add along ∈ c.neighbors := List.mem_map_of_mem halong
    have hrest := ih hsteps (c.add along)
    cases steps with
    | nil => exact List.isChain_pair.2 hnext
    | cons along' steps => exact List.isChain_cons_cons.2 ⟨hnext, hrest⟩

/-- A walk that comes back to where it began. -/
theorem chain_walk {c : Coord} {steps : List Coord} (hne : steps ≠ [])
    (h : ∀ along ∈ steps, along ∈ directions) (hend : walkEnd c steps = c) :
    Cycle.Chain (fun c d => d ∈ c.neighbors) (walk c steps : Cycle Coord) := by
  have hchain := isChain_walk h c
  rw [hend] at hchain
  cases steps with
  | nil => exact absurd rfl hne
  | cons along steps => exact (Cycle.chain_coe_cons _ _ _).2 hchain

/-! ## Rings -/

theorem ring_eq_walk {n : Nat} (hn : 0 < n) (a : Coord) :
    ring n a = walk (a.add (times n ⟨-1, 1⟩)) (directions.flatMap (List.replicate n)) := by
  rw [ring, if_neg (Nat.ne_of_gt hn), walk_scaled]
  rfl

/-- The six sides come back to the corner where they began. -/
theorem chain_ring {n : Nat} (hn : 0 < n) (a : Coord) :
    Cycle.Chain (fun c d => d ∈ c.neighbors) (ring n a : Cycle Coord) := by
  rw [ring_eq_walk hn]
  refine chain_walk ?_ ?_ (walkEnd_scaled n a ⟨-1, 1⟩ directions)
  · obtain ⟨n, rfl⟩ := Nat.exists_eq_add_of_lt hn
    simp [directions, List.replicate_succ]
  · intro along halong
    obtain ⟨along', halong', hmem⟩ := List.mem_flatMap.1 halong
    rwa [List.eq_of_mem_replicate hmem]

end Coord

/-! ## Boards -/

namespace Board

variable {α : Type}

/-- The cells of a board that hold no piece. -/
def freeCells (b : Board α) : List Coord := b.coords.filter fun c => (b.get? c).isNone

end Board

namespace Deal

open Coord

variable {α : Type}

theorem capacity_eq (radius : Nat) (center : Option α) :
    capacity radius center =
      ((hexRange radius origin).length : Int) - if center.isSome then 1 else 0 := by
  rw [capacity, hexRangeOfInt, if_neg (by omega), Int.toNat_natCast]

/-- The centre piece takes one cell, and the bank can go to all others. -/
theorem capacity_eq_length_freeCells (radius : Nat) (center : Option α) :
    capacity radius center = (firstBoard radius center).freeCells.length := by
  have hfree : ∀ c, ((firstBoard radius center).get? c).isNone =
      (center.isNone || c != origin) := by
    intro c
    rw [get?_firstBoard]
    by_cases hc : c = origin <;> simp [hc]
  rw [capacity_eq, Board.freeCells, (laidOut_firstBoard radius center).coords_eq, funext hfree]
  cases center with
  | none => simp
  | some piece =>
    have hmem := center_mem_hexRange radius origin
    have hpos := List.length_pos_of_mem hmem
    simp only [Option.isNone_some, Bool.false_or]
    rw [← (nodup_hexRange radius origin).erase_eq_filter, List.length_erase_of_mem hmem]
    simp
    omega

end Deal

open Coord Deal

/-- **Rings and ranges list the cells by their distance.**  A ring lists without repetition the
cells at its distance, which for a positive distance are six times as many and follow one another
around the centre; a range lists without repetition the cells up to its distance.  So the cells of a
board are those up to its radius, and a deal has room for as many pieces as cells are free around
the centre piece. -/
theorem cells_by_distance (n : Nat) (a : Coord) :
    ((ring n a).Nodup ∧ (∀ c, c ∈ ring n a ↔ distance c a = n) ∧
      (ring (n + 1) a).length = 6 * (n + 1) ∧
      Cycle.Chain (fun c d => d ∈ c.neighbors) (ring (n + 1) a : Cycle Coord)) ∧
    ((hexRange n a).Nodup ∧ (∀ c, c ∈ hexRange n a ↔ distance c a ≤ n) ∧
      (hexRange n a).length = 1 + 3 * n * (n + 1)) ∧
    ∀ {α : Type}, Board.ofRadius n = .ok (Board.empty n : Board α) ∧
      (∀ c, (Board.empty n : Board α).inBounds c = true ↔ distance c origin ≤ n) ∧
      ∀ center : Option α, capacity n center = (firstBoard n center).freeCells.length := by
  refine ⟨⟨nodup_ring n a, mem_ring_iff n a, length_ring n.succ_pos a, chain_ring n.succ_pos a⟩,
    ⟨nodup_hexRange n a, mem_hexRange_iff n a, length_hexRange n a⟩, ?_⟩
  intro α
  refine ⟨?_, fun c => ?_, capacity_eq_length_freeCells n⟩
  · rw [Board.ofRadius, if_neg (by omega), Int.toNat_natCast]
  · rw [Board.inBounds_iff_mem]
    exact mem_hexRange_iff n origin c

end HexRules
