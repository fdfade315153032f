import HexRules.Proofs.ChainSlots
import HexRules.Proofs.IdentifierOrder
import HexRules.Proofs.PatternOutcome
import Mathlib.Data.List.Sort

/-!
# Literal patterns and searches

A literal pattern is compared by sorting, a pattern with predicates by a search.  Sorting keeps equal
pieces in the order of their indices, so the walk side by side gives every slot the first candidate
equal to its piece that no slot before it takes.  That is the least assignment, the one that the
search finds; and both find one exactly when the pattern is a multiset contained in the candidates.

    (mergeWalk slots order).isSome ↔ the pieces of `slots` are a sublist of those of `order`
                                                                         (mergeWalk_isSome_iff)
    (firstMatch … candidates).isSome ↔ pattern.Subperm candidates        (isSome_firstMatch_literal)
    testLiteral pattern candidates = outcome (the literals) candidates   (testLiteral_eq_outcome)
    (m.test candidates s).1 = outcome m.slots candidates                 (test_fst)
-/

namespace HexRules

namespace Matcher

/-! ## Sorting is stable -/

/-- What pieces with their indices are sorted by. -/
def entryLe (a b : Piece × Nat) : Bool := a.1.le b.1

/-- A less piece, or an equal one at a lower index. -/
def Before (a b : Piece × Nat) : Prop := a.1.lt b.1 = true ∨ a.1 = b.1 ∧ a.2 < b.2

theorem entryLe_trans (a b c : Piece × Nat) (hab : entryLe a b = true)
    (hbc : entryLe b c = true) : entryLe a c = true :=
  Identifier.le_trans a.1 b.1 c.1 hab hbc

theorem entryLe_total (a b : Piece × Nat) : (entryLe a b || entryLe b a) = true :=
  Identifier.le_total a.1 b.1

theorem sorted_pieces_perm (pieces : List Piece) :
    ((sorted pieces).map Prod.fst).Perm pieces := by
  have h := (List.mergeSort_perm pieces.zipIdx entryLe).map Prod.fst
  rw [List.zipIdx_map_fst] at h
  exact h

theorem pairwise_le_sorted (pieces : List Piece) :
    (sorted pieces).Pairwise fun a b => entryLe a b = true :=
  List.pairwise_mergeSort entryLe_trans entryLe_total pieces.zipIdx

theorem pairwise_le_sorted_pieces (pieces : List Piece) :
    ((sorted pieces).map Prod.fst).Pairwise fun a b => a.le b = true :=
  List.pairwise_map.2 (pairwise_le_sorted pieces)

/-- Two entries do not come in both orders. -/
theorem not_sublist_swap {α : Type} {a b : α} {xs : List α} (hnodup : xs.Nodup)
    (hab : [a, b].Sublist xs) : ¬ [b, a].Sublist xs := by
  induction xs with
  | nil => cases hab
  | cons x rest ih =>
    obtain ⟨hx, hrest⟩ := List.nodup_cons.1 hnodup
    intro hba
    rcases List.sublist_cons_iff.1 hab with hab' | ⟨tail, heq, htail⟩
    · rcases List.sublist_cons_iff.1 hba with hba' | ⟨tail, heq, -⟩
      · exact ih hrest hab' hba'
      · cases heq
        exact hx (hab'.subset (List.mem_cons_of_mem _ List.mem_cons_self))
    · cases heq
      rcases List.sublist_cons_iff.1 hba with hba' | ⟨tail, heq, -⟩
      · exact hx (hba'.subset (List.mem_cons_of_mem _ List.mem_cons_self))
      · cases heq
        exact hx (htail.subset List.mem_cons_self)

/-- Entries stand in a list of pieces with their indices in the order of the indices. -/
theorem sublist_zipIdx {pieces : List Piece} {a b : Piece × Nat} (ha : a ∈ pieces.zipIdx)
    (hb : b ∈ pieces.zipIdx) (h : a.2 < b.2) : [a, b].Sublist pieces.zipIdx := by
  have hanti : Std.Antisymm fun x y : Piece × Nat => x.2 < y.2 :=
    ⟨fun x y hxy hyx => absurd hxy (Nat.lt_asymm hyx)⟩
  have hindices : pieces.zipIdx.Pairwise fun x y => x.2 < y.2 := by
    rw [← List.pairwise_map (f := Prod.snd) (R := (· < ·)), List.zipIdx_map_snd]
    exact List.pairwise_lt_range'
  have hne : a ≠ b := by
    rintro rfl
    exact Nat.lt_irrefl _ h
  have hsub : [a, b] ⊆ pieces.zipIdx := by
    intro x hx
    rcases List.mem_pair.1 hx with rfl | rfl
    · exact ha
    · exact hb
  exact List.sublist_of_subperm_of_pairwise
    (List.subperm_of_subset (by simpa using hne) hsub) (List.pairwise_pair.2 h) hindices

theorem pairwise_before_sorted (pieces : List Piece) : (sorted pieces).Pairwise Before := by
  have hperm := List.mergeSort_perm pieces.zipIdx entryLe
  have hnodup : (sorted pieces).Nodup :=
    ((sorted_indices_perm pieces).nodup_iff.2 List.nodup_range).of_map Prod.snd
  rw [List.pairwise_iff_forall_sublist]
  intro a b hab
  have hle := List.pairwise_iff_forall_sublist.1 (pairwise_le_sorted pieces) hab
  by_cases heq : a.1 = b.1
  · refine .inr ⟨heq, ?_⟩
    have hne : a.2 ≠ b.2 := by
      have hindices := (hab.map Prod.snd).nodup
        ((sorted_indices_perm pieces).nodup_iff.2 List.nodup_range)
      simpa using hindices
    by_contra hlt
    -- otherwise sorting, which is stable, would have put `b` first
    have hba : [b, a].Sublist pieces.zipIdx :=
      sublist_zipIdx (hperm.mem_iff.1 (hab.subset (by simp)))
        (hperm.mem_iff.1 (hab.subset (by simp))) (by omega)
    have hle' : entryLe b a = true := by
      rw [entryLe, heq] at hle ⊢
      exact hle
    exact not_sublist_swap hnodup hab
      (List.pair_sublist_mergeSort entryLe_trans entryLe_total hle' hba)
  · refine .inl (Identifier.lt_of_not_lt (Ne.symm heq) ?_)
    intro hlt
    exact Identifier.not_le_of_lt hlt hle

/-- Sorted lists are contained in one another as lists when they are as multisets. -/
theorem sorted_sublist_iff (xs ys : List Piece) :
    ((sorted xs).map Prod.fst).Sublist ((sorted ys).map Prod.fst) ↔ xs.Subperm ys := by
  have hanti : Std.Antisymm fun a b : Piece => a.le b = true :=
    ⟨fun a b => Identifier.le_antisymm⟩
  rw [← (sorted_pieces_perm ys).subperm_left, ← (sorted_pieces_perm xs).subperm_right]
  constructor
  · intro h
    exact h.subperm
  · intro h
    exact List.sublist_of_subperm_of_pairwise h (pairwise_le_sorted_pieces xs)
      (pairwise_le_sorted_pieces ys)

/-! ## Walks side by side -/

theorem mergeWalk_isSome_iff (slots order : List (Piece × Nat))
    (h : (order.map Prod.fst).Pairwise fun a b => a.le b = true) :
    (mergeWalk slots order).isSome = true ↔
      (slots.map Prod.fst).Sublist (order.map Prod.fst) := by
  fun_induction mergeWalk slots order with
  | case1 order => simp
  | case2 => simp
  | case3 slot slots found position rest ih =>
    rw [List.map_cons, List.pairwise_cons] at h
    rw [Option.isSome_map, ih h.2, List.map_cons, List.map_cons, List.cons_sublist_cons]
  | case4 wanted slot slots found position rest hne hlt ih =>
    rw [List.map_cons, List.pairwise_cons] at h
    rw [ih h.2]
    show _ ↔ List.Sublist _ (found :: rest.map Prod.fst)
    rw [List.sublist_cons_iff]
    constructor
    · exact .inl
    · rintro (hsub | ⟨tail, heq, -⟩)
      · exact hsub
      · cases heq
        exact absurd rfl hne
  | case5 wanted slot slots found position rest hne hnlt =>
    -- the slot's piece is less than all that is left
    have hlt := Identifier.lt_of_not_lt hne hnlt
    rw [List.map_cons, List.pairwise_cons] at h
    constructor
    · intro hsome
      cases hsome
    · intro hsub
      have hmem : wanted ∈ (((found, position) :: rest).map Prod.fst) :=
        hsub.subset (by simp)
      rw [List.map_cons] at hmem
      rcases List.mem_cons.1 hmem with heq | hmem
      · exact absurd heq.symm hne
      · exact absurd (h.1 wanted hmem) (Identifier.not_le_of_lt hlt)

theorem covers_iff (slots order : List Piece) (h : slots.Pairwise fun a b => a.le b = true) :
    covers slots order = true ↔ order.Sublist slots := by
  fun_induction covers slots order with
  | case1 slots => simp
  | case2 => simp
  | case3 slots found rest ih =>
    rw [List.pairwise_cons] at h
    rw [ih h.2, List.cons_sublist_cons]
  | case4 wanted slots found rest hne hlt =>
    rw [List.pairwise_cons] at h
    constructor
    · intro hcovers
      cases hcovers
    · intro hsub
      rcases List.mem_cons.1 (hsub.subset List.mem_cons_self) with heq | hmem
      · exact absurd heq hne
      · exact absurd (h.1 found hmem) (Identifier.not_le_of_lt hlt)
  | case5 wanted slots found rest hne hnlt ih =>
    rw [List.pairwise_cons] at h
    rw [ih h.2, List.sublist_cons_iff]
    constructor
    · exact .inl
    · rintro (hsub | ⟨tail, heq, -⟩)
      · exact hsub
      · cases heq
        exact absurd rfl hne

theorem Before.lt_of_eq {p : Piece} {i j : Nat} (h : Before (p, i) (p, j)) : i < j := by
  rcases h with hless | ⟨-, hlt⟩
  · rw [Identifier.lt_iff] at hless
    exact absurd hless (lt_irrefl _)
  · exact hlt

/-- A slot takes the first candidate equal to its piece that is left by the slots before it. -/
theorem mergeWalk_firstFit (slots order : List (Piece × Nat)) (pairs : List (Nat × Nat))
    (hs : slots.Pairwise Before) (ho : order.Pairwise Before)
    (h : mergeWalk slots order = some pairs) :
    ∀ pair ∈ pairs, ∃ w, (w, pair.1) ∈ slots ∧ (w, pair.2) ∈ order ∧
      ∀ p, p < pair.2 → (w, p) ∈ order → ∃ slot, slot < pair.1 ∧ (slot, p) ∈ pairs := by
  fun_induction mergeWalk slots order generalizing pairs with
  | case1 order =>
    cases h
    simp
  | case2 => cases h
  | case3 slot slots found position rest ih =>
    obtain ⟨tail, ht, rfl⟩ := Option.map_eq_some_iff.1 h
    obtain ⟨hslot, hslots⟩ := List.pairwise_cons.1 hs
    obtain ⟨hposition, hrest⟩ := List.pairwise_cons.1 ho
    intro pair hp
    rcases List.mem_cons.1 hp with rfl | hp
    · refine ⟨found, List.mem_cons_self, List.mem_cons_self, fun p hlt hmem => ?_⟩
      rcases List.mem_cons.1 hmem with heq | hmem
      · obtain ⟨-, rfl⟩ := Prod.mk.inj heq
        exact absurd hlt (Nat.lt_irrefl p)
      · exact absurd hlt (Nat.lt_asymm (hposition (found, p) hmem).lt_of_eq)
    · obtain ⟨w, hw, hwr, hfirst⟩ := ih tail hslots hrest ht pair hp
      refine ⟨w, List.mem_cons_of_mem _ hw, List.mem_cons_of_mem _ hwr, fun p hlt hmem => ?_⟩
      rcases List.mem_cons.1 hmem with heq | hmem
      · -- the candidate went to the slot just before
        obtain ⟨rfl, rfl⟩ := Prod.mk.inj heq
        exact ⟨slot, (hslot (w, pair.1) hw).lt_of_eq, List.mem_cons_self⟩
      · obtain ⟨slot', hlt', hmem'⟩ := hfirst p hlt hmem
        exact ⟨slot', hlt', List.mem_cons_of_mem _ hmem'⟩
  | case4 wanted slot slots found position rest hne hlt ih =>
    obtain ⟨hslot, -⟩ := List.pairwise_cons.1 hs
    obtain ⟨-, hrest⟩ := List.pairwise_cons.1 ho
    intro pair hp
    obtain ⟨w, hw, hwr, hfirst⟩ := ih pairs hs hrest h pair hp
    refine ⟨w, hw, List.mem_cons_of_mem _ hwr, fun p hp' hmem => ?_⟩
    rcases List.mem_cons.1 hmem with heq | hmem
    · -- a candidate that is skipped is less than the piece of every slot left
      obtain ⟨rfl, rfl⟩ := Prod.mk.inj heq
      rw [Identifier.lt_iff] at hlt
      rcases List.mem_cons.1 hw with heq | hw
      · exact absurd (Prod.mk.inj heq).1 hne
      · rcases hslot (w, pair.1) hw with hless | ⟨heq, -⟩
        · rw [Identifier.lt_iff] at hless
          exact absurd hless (lt_asymm hlt)
        · exact absurd heq.symm hne
    · exact hfirst p hp' hmem
  | case5 => cases h

/-! ## Multisets -/

theorem takes_literal (pattern candidates : List Piece) (slot position : Nat) :
    takes (pattern.map .literal) candidates slot position = true ↔
      ∃ p, pattern[slot]? = some p ∧ candidates[position]? = some p := by
  rw [takes_iff]
  constructor
  · rintro ⟨q, p, hq, hp, ha⟩
    rw [List.getElem?_map, Option.map_eq_some_iff] at hq
    obtain ⟨wanted, hwanted, rfl⟩ := hq
    obtain rfl : p = wanted := of_decide_eq_true ha
    exact ⟨p, hwanted, hp⟩
  · rintro ⟨p, hp, hc⟩
    exact ⟨.literal p, p, by rw [List.getElem?_map, hp]; rfl, hc, decide_eq_true rfl⟩

/-- The pieces that fit a literal pattern are the pattern. -/
theorem piecesAt_of_fits {pattern candidates : List Piece} {chosen : List Nat}
    (h : (literal pattern).Fits candidates chosen) : piecesAt candidates chosen = pattern := by
  have haccepts := h.accepts
  rw [slots, List.forall₂_map_left_iff] at haccepts
  have heq : List.Forall₂ (· = ·) pattern (piecesAt candidates chosen) :=
    haccepts.imp fun wanted p hp => (of_decide_eq_true hp).symm
  exact (List.forall₂_eq_eq_eq ▸ heq).symm

theorem exists_fits_literal_iff (pattern candidates : List Piece) :
    (∃ chosen, (literal pattern).Fits candidates chosen) ↔ pattern.Subperm candidates := by
  constructor
  · rintro ⟨chosen, hfits⟩
    have hperm := Link.leftover_perm candidates chosen hfits.nodup
    have hpieces := piecesAt_of_fits hfits
    rw [piecesAt] at hpieces
    rw [hpieces] at hperm
    exact (List.sublist_append_left _ _).subperm.trans hperm.subperm
  · intro h
    have hsome := (mergeWalk_isSome_iff (sorted pattern) (sorted candidates)
      (pairwise_le_sorted_pieces candidates)).2 ((sorted_sublist_iff pattern candidates).2 h)
    obtain ⟨pairs, hpairs⟩ := Option.isSome_iff_exists.1 hsome
    exact ⟨_, fits_of_testLiteral pattern candidates _ (by rw [testLiteral, hpairs])⟩

theorem isSome_firstMatch_literal (pattern candidates : List Piece) :
    (firstMatch (pattern.map .literal) candidates).isSome = true ↔ pattern.Subperm candidates :=
  (isSome_firstMatch_iff (literal pattern) candidates).trans
    (exists_fits_literal_iff pattern candidates)

/-- Slots for the candidates are candidates for the slots with the two lists changed over. -/
theorem firstExtension_literal (pattern candidates : List Piece) :
    firstExtension (pattern.map .literal) candidates =
      firstMatch (candidates.map .literal) pattern := by
  have htakes : (fun position slot => takes (pattern.map .literal) candidates slot position) =
      takes (candidates.map .literal) pattern := by
    funext position slot
    rw [Bool.eq_iff_iff, takes_literal, takes_literal]
    simp only [and_comm]
  rw [firstExtension, firstMatch, htakes, List.length_map, List.length_map]

/-! ## Both kinds of pattern -/

/-- In the order of the slots as they are written, each slot takes the first candidate equal to its
piece of those that the slots before it leave. -/
theorem firstFit_of_mergeWalk {pattern candidates : List Piece} {pairs : List (Nat × Nat)}
    (h : mergeWalk (sorted pattern) (sorted candidates) = some pairs) {slot position p : Nat}
    (hposition : (positions pattern.length pairs)[slot]? = some position) (hp : p < position)
    (htakes : takes (pattern.map .literal) candidates slot p = true) :
    p ∈ (positions pattern.length pairs).take slot := by
  have hfirst := mergeWalk_firstFit _ _ pairs (pairwise_before_sorted pattern)
    (pairwise_before_sorted candidates) h
  have hpair := mem_pairs_of_mergeWalk pattern _ pairs h
  rw [positions, List.getElem?_map, Option.map_eq_some_iff] at hposition
  obtain ⟨slot', hslot', rfl⟩ := hposition
  obtain ⟨hslot, rfl⟩ := List.getElem?_eq_some_iff.1 hslot'
  rw [List.length_range] at hslot
  rw [List.getElem_range] at hp
  obtain ⟨w, hw, -, hbefore⟩ := hfirst _ (hpair slot hslot)
  obtain ⟨w', hw', hcandidate⟩ := (takes_literal _ _ _ _).1 htakes
  obtain rfl : w = w' := Option.some.inj (((mem_sorted pattern w slot).1 hw).symm.trans hw')
  obtain ⟨earlier, hlt, hmem⟩ := hbefore p hp ((mem_sorted candidates w p).2 hcandidate)
  have hkeys : (pairs.map Prod.fst).Nodup := by
    rw [(mergeWalk_spec _ _ pairs h).1]
    exact (sorted_indices_perm pattern).nodup_iff.2 List.nodup_range
  have hfind := (findEntry_eq_some_iff earlier p pairs hkeys).2 hmem
  rw [positions, ← List.map_take, List.take_range, List.mem_map]
  refine ⟨earlier, List.mem_range.2 (by omega), ?_⟩
  rw [hfind]
  rfl

theorem firstMatch_of_mergeWalk {pattern candidates : List Piece} {pairs : List (Nat × Nat)}
    (h : mergeWalk (sorted pattern) (sorted candidates) = some pairs) :
    firstMatch (pattern.map .literal) candidates = some (positions pattern.length pairs) := by
  have hfits : (literal pattern).Fits candidates (positions pattern.length pairs) :=
    fits_of_testLiteral pattern candidates _ (by rw [testLiteral, h])
  obtain ⟨hcompletes, hlen⟩ := (fits_iff _ _ _).1 hfits
  exact Assignment.least_eq_some_of_firstFit hcompletes hlen fun slot position hposition p hp
    htakes => firstFit_of_mergeWalk h hposition hp htakes

theorem testLiteral_eq_outcome (pattern candidates : List Piece) :
    testLiteral pattern candidates = outcome (pattern.map .literal) candidates := by
  have hmatch := isSome_firstMatch_literal pattern candidates
  have hsublist := sorted_sublist_iff pattern candidates
  have hwalk := mergeWalk_isSome_iff (sorted pattern) (sorted candidates)
    (pairwise_le_sorted_pieces candidates)
  cases hw : mergeWalk (sorted pattern) (sorted candidates) with
  | some pairs =>
    rw [outcome, firstMatch_of_mergeWalk hw, testLiteral, hw]
  | none =>
    have hnone : firstMatch (pattern.map .literal) candidates = none := by
      rw [← Option.not_isSome_iff_eq_none, hmatch, ← hsublist, ← hwalk, hw]
      simp
    have hextension : (firstExtension (pattern.map .literal) candidates).isSome = true ↔
        candidates.Subperm pattern := by
      rw [firstExtension_literal]
      exact isSome_firstMatch_literal candidates pattern
    have hcovers : (candidates.length ≤ pattern.length &&
        covers ((sorted pattern).map Prod.fst) ((sorted candidates).map Prod.fst)) = true ↔
          candidates.Subperm pattern := by
      rw [Bool.and_eq_true, decide_eq_true_eq,
        covers_iff _ _ (pairwise_le_sorted_pieces pattern), sorted_sublist_iff]
      exact ⟨And.right, fun hsub => ⟨hsub.length_le, hsub⟩⟩
    simp only [testLiteral, outcome, hw, hnone, hcovers, hextension]

/-- **A pattern is its slots**: what a test answers depends on the slots and the candidates only,
for patterns of both kinds. -/
theorem test_fst (m : Matcher) (candidates : List Piece) (s : Scope) :
    (m.test candidates s).1 = outcome m.slots candidates := by
  cases m with
  | literal pattern => exact testLiteral_eq_outcome pattern candidates
  | search predicates => exact testSearch_fst predicates candidates s

end Matcher

end HexRules
