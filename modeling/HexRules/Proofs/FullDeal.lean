import HexRules.Proofs.RingWalk
import HexRules.Proofs.RoundedRatio

/-!
# Deals that fill the board

When the random numbers are low and high in turn, every cell of a ring gets a piece as long as there
are pieces: a low one lets the cell have a piece, and a high one lets the piece lie alone in the
innermost ring, unless that is also the outermost.  Further out a cell lies beside one of the ring
inside it, which is full by then.  So the rings take all pieces but one at most, which is left when
there is no centre piece, and goes to the middle.

    Filled P radius center count step p → step < radius →
      Filled P radius center count (step + 1) (dealRing radius p (step + 1))     (Filled.dealRing)
    a bank that fits, and is empty, or a centre piece, or a radius of two or more →
      (attempt bank radius center tries g).1 = some b for some b                 (exists_attempt)
-/

namespace HexRules

open Coord

namespace Deal

variable {α γ : Type} {P : γ → Prop}

/-! ## Full rings -/

/-- The rings up to `step` are dealt: they are full as long as there are pieces, and further out the
board is empty.  `P` holds of the source of randomness. -/
structure Filled (P : γ → Prop) (radius : Nat) (center : Option α) (count step : Nat)
    (p : Progress α γ) : Prop where
  draws : P p.gen
  radius_eq : p.board.radius = radius
  length_eq : p.pending.length = count - 3 * step * (step + 1)
  center_eq : p.board.get? origin = center
  outside : ∀ c, step < distance c origin → p.board.get? c = none
  inside : p.pending ≠ [] → ∀ c, c ≠ origin → distance c origin ≤ step →
    (p.board.get? c).isSome = true

theorem filled_firstBoard (radius : Nat) (center : Option α) (pending : List α) {g : γ}
    (hg : P g) :
    Filled P radius center pending.length 0 ⟨pending, firstBoard radius center, g⟩ := by
  refine ⟨hg, ?_, rfl, ?_, fun c hc => ?_, fun _ c hc hdistance => ?_⟩
  · cases center <;> rfl
  · rw [get?_firstBoard, if_pos rfl]
  · rw [get?_firstBoard, if_neg]
    rintro rfl
    rw [distance_self] at hc
    exact Nat.lt_irrefl 0 hc
  · exact absurd ((distance_eq_zero_iff c origin).1 (Nat.le_zero.1 hdistance)) hc

section Ring

variable {radius : Nat} {center : Option α} {count step : Nat} {p q : Progress α γ}

theorem Filled.free (h : Filled P radius center count step p) (hstep : step < radius) {c : Coord}
    (hc : distance c origin = step + 1) : p.board.inBounds c = true ∧ p.board.get? c = none := by
  rw [Board.inBounds_iff_mem, h.radius_eq, mem_hexRange_iff]
  exact ⟨by omega, h.outside c (by omega)⟩

/-- While there are pieces, each cell of the next ring lies beside one of the ring before. -/
theorem Filled.hasNeighbor (h : Filled P radius center count step p) (hpending : p.pending ≠ [])
    (hinner : 0 < step ∨ center.isSome = true) {c : Coord} (hc : distance c origin = step + 1) :
    p.board.hasNeighbor c = true := by
  obtain ⟨d, hd, hdistance⟩ := exists_nearer_neighbor hc
  refine (p.board.hasNeighbor_iff c).2 ⟨d, hd, ?_⟩
  by_cases horigin : d = origin
  · rw [horigin, h.center_eq]
    refine hinner.resolve_left fun hstep => ?_
    rw [horigin, distance_self] at hdistance
    omega
  · exact h.inside hpending d horigin (Nat.le_of_eq hdistance)

/-- Every cell has got a piece from the top of the stack, as long as there were pieces. -/
structure Serves (cells : List Coord) (p q : Progress α γ) : Prop where
  radius_eq : q.board.radius = p.board.radius
  pending_eq : q.pending = p.pending.drop cells.length
  keeps : ∀ c ∉ cells, q.board.get? c = p.board.get? c
  serves : cells.length ≤ p.pending.length → ∀ c ∈ cells, (q.board.get? c).isSome = true

/-- The next ring has six cells more than the last one, and what lies elsewhere stays. -/
theorem Filled.of_serves (h : Filled P radius center count step p) {cells : List Coord}
    (hcells : ∀ c, c ∈ cells ↔ distance c origin = step + 1)
    (hlength : cells.length = 6 * (step + 1)) (hserves : Serves cells p q) (hdraws : P q.gen) :
    Filled P radius center count (step + 1) q := by
  have hkeeps : ∀ c, distance c origin ≠ step + 1 → q.board.get? c = p.board.get? c := fun c hc =>
    hserves.keeps c (mt (hcells c).1 hc)
  have hleft : q.pending.length = p.pending.length - 6 * (step + 1) := by
    rw [hserves.pending_eq, List.length_drop, hlength]
  have hcount : 3 * (step + 1) * (step + 1 + 1) = 3 * step * (step + 1) + 6 * (step + 1) := by ring
  refine ⟨hdraws, hserves.radius_eq.trans h.radius_eq, ?_, ?_, fun c hc => ?_,
    fun hpending c horigin hc => ?_⟩
  · rw [hleft, h.length_eq, hcount, Nat.sub_sub]
  · rw [hkeeps origin (by rw [distance_self]; omega), h.center_eq]
  · rw [hkeeps c (by omega), h.outside c (by omega)]
  · have hpos := List.length_pos_iff.2 hpending
    by_cases hlast : distance c origin = step + 1
    · exact hserves.serves (by omega) c ((hcells c).2 hlast)
    · rw [hkeeps c hlast]
      exact h.inside (List.length_pos_iff.1 (by omega)) c horigin (by omega)

/-- What the rings leave is one piece at most, and only if there is no centre piece. -/
theorem Filled.pending_cases {bank : List α} {center : Option α}
    (h : Filled P radius center bank.length radius p)
    (hfits : (bank.length : Int) ≤ capacity radius center) :
    p.pending = [] ∨ center = none ∧ ∃ piece, p.pending = [piece] := by
  have hleft := h.length_eq
  rw [capacity_eq, length_hexRange] at hfits
  cases center with
  | none =>
    rw [Option.isSome_none, if_neg Bool.false_ne_true] at hfits
    have hlength : p.pending.length = 0 ∨ p.pending.length = 1 := by omega
    exact hlength.imp List.length_eq_zero_iff.1 fun hone => ⟨rfl, List.length_eq_one_iff.1 hone⟩
  | some _ =>
    rw [Option.isSome_some, if_pos rfl] at hfits
    exact .inl (List.length_eq_zero_iff.1 (by omega))

/-- The last piece goes to the middle, which lies beside the innermost ring. -/
theorem Filled.tryInsert_origin (h : Filled P radius none count radius p) (hradius : 0 < radius)
    (hpending : p.pending ≠ []) (piece : α) :
    p.board.tryInsert origin piece true =
      some (p.board.put origin (some piece) p.board.inBounds_origin) := by
  have hfull : (p.board.get? ⟨1, 0⟩).isSome = true :=
    h.inside hpending ⟨1, 0⟩ (by decide) hradius
  have hbeside : p.board.hasNeighbor origin = true :=
    (p.board.hasNeighbor_iff origin).2 ⟨⟨1, 0⟩, by decide, hfull⟩
  exact Board.tryInsert_eq_some_iff.2 ⟨_, h.center_eq, fun _ => hbeside, rfl⟩

end Ring

variable [Generator γ]

/-! ## Draws -/

/-- `P` holds of a source of randomness when its random numbers are low and high in turn, a low one
next, and it draws the first of any numbers. -/
structure Alternates (P : γ → Prop) : Prop where
  reorders : Generator.Reorders γ
  low : ∀ {g}, P g → (Generator.random g).1 = 0
  high : ∀ {g}, P g → 9 / 10 ≤ (Generator.random (Generator.random g).2).1
  random : ∀ {g}, P g → P (Generator.random (Generator.random g).2).2
  below : ∀ {g} (n : Nat), P g → (Generator.below n g).1 = 0
  shuffle : ∀ {g} {β : Type} (items : List β), P g → P (Generator.shuffle items g).2

theorem ringChance_nonneg (step : Nat) : 0 ≤ ringChance step := by
  unfold ringChance
  split
  · exact zero_le_one
  · split
    · exact nearestRatio_nonneg (by decide) (by decide)
    · exact nearestRatio_nonneg (by decide) (by decide)

/-- A high number lets a piece lie alone in the innermost ring, where that is not the outermost. -/
theorem nearestRatio_one_le {radius : Nat} (h : 2 ≤ radius) : nearestRatio 1 radius ≤ 9 / 10 := by
  have hle := nearestRatio_le Nat.one_pos (Nat.le_of_succ_le h)
  have hhalf : ((1 : Nat) : Rat) / radius ≤ 1 / 2 := by
    have hradius : (2 : Rat) ≤ radius := by exact_mod_cast h
    rw [Nat.cast_one]
    gcongr
  norm_num at hle hhalf ⊢
  linarith

/-! ## Rings -/

/-- The induction is on the cells.  A piece that is put down takes no neighbour away from the cells
that are still to come. -/
theorem serves_dealCells (h : Alternates P) {chance nearness : Rat} (hchance : 0 ≤ chance)
    {cells : List Coord} (hnodup : cells.Nodup) {p : Progress α γ} (hg : P p.gen)
    (hfree : ∀ c ∈ cells, p.board.inBounds c = true ∧ p.board.get? c = none)
    (hbeside : p.pending ≠ [] →
      nearness ≤ 9 / 10 ∨ ∀ c ∈ cells, p.board.hasNeighbor c = true) :
    Serves cells p (dealCells chance nearness cells p) ∧
      P (dealCells chance nearness cells p).gen := by
  induction cells generalizing p with
  | nil => exact ⟨⟨rfl, rfl, fun _ _ => rfl, fun _ c hc => absurd hc List.not_mem_nil⟩, hg⟩
  | cons c rest ih =>
    obtain ⟨pending, board, g⟩ := p
    cases pending with
    | nil =>
      refine ⟨⟨rfl, List.drop_nil.symm, fun _ _ => rfl, fun hlength => ?_⟩, hg⟩
      exact absurd hlength (Nat.not_succ_le_zero _)
    | cons piece pending =>
      replace hbeside : nearness ≤ 9 / 10 ∨ ∀ d ∈ c :: rest, board.hasNeighbor d = true :=
        hbeside (List.cons_ne_nil _ _)
      obtain ⟨hin, hempty⟩ := hfree c List.mem_cons_self
      obtain ⟨hc, hrest⟩ := List.nodup_cons.1 hnodup
      have hpass : ¬ chance < (Generator.random g).1 := by
        rw [h.low hg]
        exact Rat.not_lt.2 hchance
      have hinsert : board.tryInsert c piece
          (decide ((Generator.random (Generator.random g).2).1 < nearness)) =
            some (board.put c (some piece) hin) := by
        refine Board.tryInsert_eq_some_iff.2 ⟨hin, hempty, fun hneeds => ?_, rfl⟩
        rcases hbeside with hle | hbeside
        · exact absurd (of_decide_eq_true hneeds) (Rat.not_lt.2 (hle.trans (h.high hg)))
        · exact hbeside c List.mem_cons_self
      have hgains := Board.gains_of_tryInsert hinsert
      obtain ⟨hserves, hnext⟩ :=
        ih hrest (p := ⟨pending, board.put c (some piece) hin, _⟩) (h.random hg) (fun d hd => by
          obtain ⟨hdin, hdempty⟩ := hfree d (List.mem_cons_of_mem _ hd)
          rw [Board.inBounds_put, Board.get?_put, if_neg (ne_of_mem_of_not_mem hd hc)]
          exact ⟨hdin, hdempty⟩)
          (fun _ => hbeside.imp_right fun hbeside d hd =>
            hgains.hasNeighbor (hbeside d (List.mem_cons_of_mem _ hd)))
      simp only [dealCells, if_neg hpass, hinsert]
      refine ⟨⟨hserves.radius_eq, hserves.pending_eq, fun d hd => ?_, fun hlength => ?_⟩, hnext⟩
      · rw [List.mem_cons, not_or] at hd
        rw [hserves.keeps d hd.2, Board.get?_put, if_neg hd.1]
      · refine List.forall_mem_cons.2 ⟨?_, hserves.serves (Nat.le_of_succ_le_succ hlength)⟩
        rw [hserves.keeps c hc, Board.get?_put, if_pos rfl]
        rfl

theorem Filled.dealRing (hP : Alternates P) {radius : Nat} {center : Option α} {count step : Nat}
    {p : Progress α γ} (h : Filled P radius center count step p) (hstep : step < radius)
    (hseed : 0 < count → center.isSome = true ∨ 2 ≤ radius) :
    Filled P radius center count (step + 1) (Deal.dealRing radius p (step + 1)) := by
  have hperm := hP.reorders (ring (step + 1) origin) p.gen
  have hcells : ∀ c, c ∈ (Generator.shuffle (ring (step + 1) origin) p.gen).1 ↔
      distance c origin = step + 1 := fun c => hperm.mem_iff.trans (mem_ring_iff _ _ _)
  have hbeside : p.pending ≠ [] → nearestRatio (step + 1) radius ≤ 9 / 10 ∨
      ∀ c ∈ (Generator.shuffle (ring (step + 1) origin) p.gen).1,
        p.board.hasNeighbor c = true := by
    intro hpending
    by_cases hinner : 0 < step ∨ center.isSome = true
    · exact .inr fun c hc => h.hasNeighbor hpending hinner ((hcells c).1 hc)
    · rw [not_or] at hinner
      obtain rfl : step = 0 := by omega
      have hcount : 0 < count := (List.length_pos_iff.2 hpending).trans_eq h.length_eq
      exact .inl (nearestRatio_one_le ((hseed hcount).resolve_left hinner.2))
  obtain ⟨hserves, hdraws⟩ := serves_dealCells hP (ringChance_nonneg (step + 1))
    (hperm.nodup_iff.2 (nodup_ring _ _)) (p := { p with gen := _ }) (hP.shuffle _ h.draws)
    (fun c hc => h.free hstep ((hcells c).1 hc)) hbeside
  exact h.of_serves hcells (hperm.length_eq.trans (length_ring step.succ_pos origin))
    ⟨hserves.radius_eq, hserves.pending_eq, hserves.keeps, hserves.serves⟩ hdraws

theorem Filled.dealRings (hP : Alternates P) {radius : Nat} {center : Option α} {count : Nat}
    {p : Progress α γ} (h : Filled P radius center count 0 p)
    (hseed : 0 < count → center.isSome = true ∨ 2 ≤ radius) :
    Filled P radius center count radius (Deal.dealRings radius p) := by
  have hrings : ∀ n ≤ radius, Filled P radius center count n
      (((List.range n).map (· + 1)).foldl (Deal.dealRing radius) p) := by
    intro n
    induction n with
    | zero => exact fun _ => h
    | succ n ih =>
      intro hn
      rw [List.range_succ, List.map_append, List.foldl_append]
      exact (ih (Nat.le_of_succ_le hn)).dealRing hP hn hseed
  exact hrings radius (Nat.le_refl radius)

/-! ## Deals -/

/-- The middle is the first cell of a board. -/
theorem placeRest_origin (hP : Alternates P) {g : γ} (hg : P g) {radius tries : Nat}
    (htries : 0 < tries) {piece : α} {b b' : Board α}
    (hinsert : b.tryInsert origin piece true = some b') :
    (placeRest (hexRange radius origin).toArray tries [piece] b g).1 = some b' := by
  have hmiddle : (hexRange radius origin).toArray[0]? = some origin := by
    simp [hexRange, List.range_succ_eq_map, ring]
  obtain ⟨tries, rfl⟩ := Nat.exists_eq_add_of_lt htries
  simp [placeRest, placeDrawn, hP.below _ hg, hmiddle, hinsert]

theorem exists_attempt (hP : Alternates P) {g : γ} (hg : P g) {bank : List α} {radius : Nat}
    {center : Option α} {tries : Nat} (htries : 0 < tries)
    (hfits : (bank.length : Int) ≤ capacity radius center)
    (hseed : bank = [] ∨ center.isSome = true ∨ 2 ≤ radius) :
    ∃ b, (attempt bank radius center tries g).1 = some b := by
  have hpieces : 0 < bank.length → center.isSome = true ∨ 2 ≤ radius := fun hpos =>
    hseed.resolve_left (List.length_pos_iff.1 hpos)
  have hfirst := filled_firstBoard radius center (Generator.shuffle bank g).1.reverse
    (hP.shuffle bank hg)
  rw [List.length_reverse, (hP.reorders bank g).length_eq] at hfirst
  have hfilled := hfirst.dealRings hP hpieces
  unfold attempt
  simp only
  generalize dealRings radius
    ⟨(Generator.shuffle bank g).1.reverse, firstBoard radius center, (Generator.shuffle bank g).2⟩ =
      p at hfilled ⊢
  rcases hfilled.pending_cases hfits with hpending | ⟨rfl, piece, hpending⟩
  · rw [hpending]
    exact ⟨p.board, rfl⟩
  · have hradius : 2 ≤ radius := by
      have hpos : 0 < p.pending.length := by simp [hpending]
      have hleft := hfilled.length_eq
      exact (hpieces (by omega)).resolve_left Bool.false_ne_true
    have hinsert := hfilled.tryInsert_origin (by omega) (by simp [hpending]) piece
    rw [hpending]
    exact ⟨_, placeRest_origin hP hfilled.draws htries hinsert⟩

theorem exists_deal (hP : Alternates P) {g : γ} (hg : P g) {bank : List α} {radius : Nat}
    {center : Option α} {maxAttempts : Int} (hmax : 0 < maxAttempts)
    (hfits : (bank.length : Int) ≤ capacity radius center)
    (hseed : bank = [] ∨ center.isSome = true ∨ 2 ≤ radius) :
    ∃ dealt, (deal bank radius center maxAttempts g).1 = .ok dealt := by
  have htries : 0 < maxAttempts.toNat := by omega
  obtain ⟨b, hb⟩ := exists_attempt hP hg htries hfits hseed
  exact ⟨⟨b, 1⟩, deal_of_attempt hfits hmax hb⟩

end Deal

/-! ## Scripts -/

open Deal

namespace Scripted

/-- The random numbers are zero and a high one in turn, a zero next, and there are no integers, so
that the first of any numbers is drawn. -/
structure Alternating (high : Rat) (g : Scripted) : Prop where
  randoms_eq : g.randoms = #[0, high]
  integers_eq : g.integers = #[]
  even : g.nextRandom % 2 = 0

theorem alternates {high : Rat} (hhigh : 9 / 10 ≤ high) : Alternates (Alternating high) where
  reorders := Relay.reorders_scripted
  low {g} hg := by
    show (g.randoms[g.nextRandom % g.randoms.size]?).getD 0 = 0
    rw [hg.randoms_eq]
    show (#[0, high][g.nextRandom % 2]?).getD 0 = 0
    rw [hg.even]
    rfl
  high {g} hg := by
    have hodd : (g.nextRandom + 1) % 2 = 1 := by
      have heven := hg.even
      omega
    show 9 / 10 ≤ (g.randoms[(g.nextRandom + 1) % g.randoms.size]?).getD 0
    rw [hg.randoms_eq]
    show 9 / 10 ≤ (#[0, high][(g.nextRandom + 1) % 2]?).getD 0
    rw [hodd]
    exact hhigh
  random {g} hg := by
    refine ⟨hg.randoms_eq, hg.integers_eq, ?_⟩
    have heven := hg.even
    show (g.nextRandom + 1 + 1) % 2 = 0
    omega
  below {g} n hg := by
    show ((g.integers[g.nextInteger % g.integers.size]?).getD 0 % n).toNat = 0
    rw [hg.integers_eq]
    simp
  shuffle _ hg := hg

/-- Whatever is scripted, a cursor reads one of the numbers, or zero if there are none. -/
theorem random_fair {g : Scripted} (h : ∀ x ∈ g.randoms, 0 ≤ x ∧ x < 1) :
    0 ≤ (Generator.random g).1 ∧ (Generator.random g).1 < 1 := by
  show 0 ≤ (g.randoms[g.nextRandom % g.randoms.size]?).getD 0 ∧
    (g.randoms[g.nextRandom % g.randoms.size]?).getD 0 < 1
  cases hx : g.randoms[g.nextRandom % g.randoms.size]? with
  | none => exact ⟨le_refl 0, zero_lt_one⟩
  | some x => exact h x (Array.mem_of_getElem? hx)

end Scripted

/-- A script whose random numbers lie between 0 and 1. -/
structure FairScript where
  script : Scripted
  fair : ∀ x ∈ script.randoms, 0 ≤ x ∧ x < 1

namespace FairScript

instance : Generator FairScript where
  random g := ((Generator.random g.script).1, ⟨(Generator.random g.script).2, g.fair⟩)
  below n g := ((Generator.below n g.script).1, ⟨(Generator.below n g.script).2, g.fair⟩)
  shuffle items g := ((Generator.shuffle items g.script).1, g)

instance : LawfulGenerator FairScript where
  random_nonneg g := (Scripted.random_fair g.fair).1
  random_lt_one g := (Scripted.random_fair g.fair).2
  below_lt n g hn := by
    have hpos : (0 : Int) < n := by omega
    have hlt := Int.emod_lt_of_pos
      ((g.script.integers[g.script.nextInteger % g.script.integers.size]?).getD 0) hpos
    show (_ % (n : Int)).toNat < n
    omega
  shuffle_perm items g := Relay.reorders_scripted items g.script

/-- Zero and fifteen sixteenths in turn, and the first of any numbers. -/
def alternating : FairScript := ⟨.start [0, 15 / 16] [] .keep, by decide +kernel⟩

theorem alternates : Alternates fun g : FairScript => g.script.Alternating (15 / 16) := by
  have h : Alternates (Scripted.Alternating (15 / 16)) := Scripted.alternates (by norm_num)
  exact ⟨Generator.reorders_of_lawful FairScript, h.low, h.high, h.random, h.below, fun _ hg => hg⟩

end FairScript

end HexRules
