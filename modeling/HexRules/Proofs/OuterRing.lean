import HexRules.Proofs.FullDeal

/-!
# The outermost ring

Pieces that are left go beside others, and a piece of a ring does when a random number is small
enough.  In the outermost ring every random number is, since the distance over the radius is exactly
one there; so only between the middle and the outermost ring may a piece be put down alone.  What
outlasts every piece that is put down so holds of the board that is dealt: a piece in the outermost
ring lies beside another one, and no piece that is dealt later takes that one away.

    Keeps radius P → P (firstBoard radius center) →
      (deal bank radius center maxAttempts g).1 = .ok dealt → P dealt.board           (Keeps.deal)
    Keeps radius (Accompanied radius)                                          (keeps_accompanied)
-/

namespace HexRules

open Coord

namespace Deal

variable {α γ : Type}

/-! ## What a deal keeps -/

/-- `P` outlasts each piece that is put down, alone only between the middle and the outermost
ring. -/
structure Keeps (radius : Nat) (P : Board α → Prop) : Prop where
  tryInsert : ∀ {b b' : Board α} {c : Coord} {piece : α} {needsNeighbor : Bool},
    (needsNeighbor = false → 0 < distance c origin ∧ distance c origin < radius) →
      b.tryInsert c piece needsNeighbor = some b' → P b → P b'

namespace Keeps

variable [Generator γ] {radius : Nat} {P : Board α → Prop}

/-- The induction is on the cells, all of one ring. -/
theorem dealCells (h : Keeps radius P) (hrandom : ∀ g : γ, (Generator.random g).1 < 1)
    (chance : Rat) {step : Nat} (hpos : 0 < step) (hstep : step ≤ radius) {cells : List Coord}
    (hcells : ∀ c ∈ cells, distance c origin = step) {p : Progress α γ} (hp : P p.board) :
    P (Deal.dealCells chance (nearestRatio step radius) cells p).board := by
  induction cells generalizing p with
  | nil => exact hp
  | cons c rest ih =>
    obtain ⟨hc, hrest⟩ := List.forall_mem_cons.1 hcells
    obtain ⟨pending, board, g⟩ := p
    have halone : ∀ g : γ, decide ((Generator.random g).1 < nearestRatio step radius) = false →
        0 < distance c origin ∧ distance c origin < radius := by
      intro g hfar
      rw [hc]
      refine ⟨hpos, Nat.lt_of_le_of_ne hstep ?_⟩
      rintro rfl
      rw [nearestRatio_self hpos, decide_eq_false_iff_not] at hfar
      exact hfar (hrandom g)
    cases pending with
    | nil => exact hp
    | cons piece pending =>
      simp only [Deal.dealCells]
      split
      · exact ih hrest hp
      · split
        · rename_i board' hinsert
          exact ih hrest (h.tryInsert (halone _) hinsert hp)
        · exact ih hrest hp

theorem dealRings (h : Keeps radius P) (hrandom : ∀ g : γ, (Generator.random g).1 < 1)
    (hshuffle : Generator.Reorders γ) {p : Progress α γ} (hp : P p.board) :
    P (Deal.dealRings radius p).board := by
  unfold Deal.dealRings
  have hsteps : ∀ step ∈ (List.range radius).map (· + 1), 0 < step ∧ step ≤ radius := by
    simp only [List.mem_map, List.mem_range]
    rintro _ ⟨n, hn, rfl⟩
    omega
  generalize (List.range radius).map (· + 1) = steps at hsteps
  induction steps generalizing p with
  | nil => exact hp
  | cons step rest ih =>
    obtain ⟨⟨hpos, hstep⟩, hrest⟩ := List.forall_mem_cons.1 hsteps
    refine ih ?_ hrest
    refine h.dealCells hrandom (ringChance step) hpos hstep (fun c hc => ?_)
      (p := { p with gen := _ }) hp
    exact (mem_ring_iff step origin c).1 ((hshuffle _ _).mem_iff.1 hc)

theorem placeDrawn (h : Keeps radius P) {cells : Array Coord} {piece : α} {tries : Nat}
    {b b' : Board α} {g : γ} (hplace : (Deal.placeDrawn cells piece tries b g).1 = some b')
    (hb : P b) : P b' := by
  induction tries generalizing g with
  | zero => cases hplace
  | succ tries ih =>
    rw [Deal.placeDrawn] at hplace
    split at hplace
    · exact ih hplace
    · split at hplace
      · rename_i board hinsert
        cases hplace
        exact h.tryInsert (fun htrue => absurd htrue (by decide)) hinsert hb
      · exact ih hplace

theorem placeRest (h : Keeps radius P) {cells : Array Coord} {tries : Nat} {pieces : List α}
    {b b' : Board α} {g : γ} (hplace : (Deal.placeRest cells tries pieces b g).1 = some b')
    (hb : P b) : P b' := by
  induction pieces generalizing b g with
  | nil =>
    cases hplace
    exact hb
  | cons piece rest ih =>
    rw [Deal.placeRest] at hplace
    split at hplace
    · cases hplace
    · rename_i board g' hdrawn
      exact ih hplace (h.placeDrawn (congrArg Prod.fst hdrawn) hb)

theorem attempt (h : Keeps radius P) (hrandom : ∀ g : γ, (Generator.random g).1 < 1)
    (hshuffle : Generator.Reorders γ) {bank : List α} {center : Option α} {tries : Nat} {g : γ}
    {b : Board α} (hfirst : P (firstBoard radius center))
    (hattempt : (Deal.attempt bank radius center tries g).1 = some b) : P b :=
  h.placeRest hattempt (h.dealRings hrandom hshuffle hfirst)

end Keeps

theorem Keeps.deal [Generator γ] {radius : Nat} {P : Board α → Prop} (h : Keeps radius P)
    (hrandom : ∀ g : γ, (Generator.random g).1 < 1) (hshuffle : Generator.Reorders γ)
    {bank : List α} {center : Option α} {maxAttempts : Int} {g : γ} {dealt : Dealt α}
    (hfirst : P (firstBoard radius center))
    (hdeal : (HexRules.deal bank radius center maxAttempts g).1 = .ok dealt) : P dealt.board := by
  obtain ⟨g', hattempt⟩ := exists_attempt_of_deal hdeal
  exact h.attempt hrandom hshuffle hfirst hattempt

/-! ## Pieces beside others -/

/-- Every piece at a distance from the middle lies beside another one. -/
def Accompanied (n : Nat) (b : Board α) : Prop :=
  ∀ c, distance c origin = n → (b.get? c).isSome = true → b.hasNeighbor c = true

theorem keeps_accompanied (radius : Nat) : Keeps radius (Accompanied radius : Board α → Prop) := by
  refine ⟨?_⟩
  intro b b' c piece needsNeighbor halone hinsert hb d hd hpiece
  have hgains := Board.gains_of_tryInsert hinsert
  obtain ⟨hc, -, hbeside, rfl⟩ := Board.tryInsert_eq_some_iff.1 hinsert
  refine hgains.hasNeighbor ?_
  by_cases hdc : d = c
  · subst hdc
    refine hbeside (Bool.of_not_eq_false fun hfalse => ?_)
    have hinner := (halone hfalse).2
    omega
  · rw [Board.get?_put, if_neg hdc] at hpiece
    exact hb d hd hpiece

theorem accompanied_firstBoard {radius : Nat} (hradius : 0 < radius) (center : Option α) :
    Accompanied radius (firstBoard radius center) := by
  intro c hc hpiece
  have hne : c ≠ origin := by
    rintro rfl
    rw [distance_self] at hc
    omega
  rw [get?_firstBoard, if_neg hne] at hpiece
  exact absurd hpiece Bool.false_ne_true

end Deal

open Deal

/-- **No piece in the outermost ring lies alone.**  Whatever is dealt, with or without a centre
piece and with whatever random numbers below one, each piece at the distance of the radius has a
piece on one of the cells beside it. -/
theorem outermost_pieces_accompanied {γ : Type} [Generator γ]
    (hshuffle : Generator.Reorders γ) (hrandom : ∀ g : γ, (Generator.random g).1 < 1)
    {α : Type} (bank : List α) {radius : Nat} (hradius : 1 ≤ radius) (center : Option α)
    (maxAttempts : Int) (g : γ) {dealt : Dealt α}
    (h : (deal bank radius center maxAttempts g).1 = .ok dealt) {c : Coord}
    (hc : distance c origin = radius) (hpiece : (dealt.board.get? c).isSome = true) :
    ∃ d ∈ c.neighbors, (dealt.board.get? d).isSome = true := by
  have haccompanied := (keeps_accompanied radius).deal hrandom hshuffle
    (accompanied_firstBoard hradius center) h
  exact (dealt.board.hasNeighbor_iff c).1 (haccompanied c hc hpiece)

namespace Relay

/-- Salt is in the middle, so the fire that is dealt lies in the only ring, beside the salt. -/
theorem fire_accompanied :
    Generator.Reorders FairScript ∧ (∀ g : FairScript, (Generator.random g).1 < 1) ∧
      ∃ dealt, (deal ["fire"] (1 : Nat) (some "salt") 1 FairScript.alternating).1 = .ok dealt ∧
        ∃ c, distance c origin = 1 ∧ dealt.board.get? c = some "fire" ∧
          ∃ d ∈ c.neighbors, (dealt.board.get? d).isSome = true := by
  have hshuffle : Generator.Reorders FairScript := Generator.reorders_of_lawful FairScript
  have hrandom : ∀ g : FairScript, (Generator.random g).1 < 1 := LawfulGenerator.random_lt_one
  obtain ⟨dealt, hdealt⟩ : ∃ dealt,
      (deal ["fire"] (1 : Nat) (some "salt") 1 FairScript.alternating).1 = .ok dealt :=
    exists_deal FairScript.alternates ⟨rfl, rfl, rfl⟩ (by decide) (by decide) (.inr (.inl rfl))
  have hlaidOut : LaidOut 1 (some "salt") ["fire"] dealt.board := by
    obtain ⟨g, hattempt⟩ := exists_attempt_of_deal hdealt
    exact laidOut_of_attempt hshuffle hattempt
  have hfire : "fire" ∈ dealt.board.pieces := hlaidOut.pieces_perm.mem_iff.2 (by decide)
  obtain ⟨c, hc⟩ := (dealt.board.mem_pieces_iff "fire").1 hfire
  have hdistance : distance c origin = 1 := by
    have hin := (hlaidOut.inBounds_iff c).1 (Board.inBounds_of_get? hc)
    rw [mem_hexRange_iff] at hin
    refine Nat.le_antisymm hin (Nat.pos_of_ne_zero fun hzero => ?_)
    rw [(distance_eq_zero_iff c origin).1 hzero, hlaidOut.center_eq "salt" rfl] at hc
    exact absurd (Option.some.inj hc) (by decide)
  exact ⟨hshuffle, hrandom, dealt, hdealt, c, hdistance, hc,
    outermost_pieces_accompanied hshuffle hrandom ["fire"] (Nat.le_refl 1) (some "salt") 1
      FairScript.alternating hdealt hdistance (by rw [hc]; rfl)⟩

end Relay

end HexRules
