import HexRules.Proofs.Pattern
import Mathlib.Data.List.Nodup

/-!
# Literal patterns

A literal pattern that matches gives every slot the position of a candidate equal to its piece,
and no position twice.  The walk side by side sees sorted lists; the indices kept beside the pieces
lead back to the slots and positions as they were written.

    testLiteral pattern candidates = .success chosen →
      (literal pattern).Fits candidates chosen                           (fits_of_testLiteral)
-/

namespace HexRules

namespace Matcher

theorem mem_sorted (pieces : List Piece) (p : Piece) (index : Nat) :
    (p, index) ∈ sorted pieces ↔ pieces[index]? = some p := by
  rw [sorted, (List.mergeSort_perm _ _).mem_iff, List.mem_zipIdx_iff_getElem?]

theorem sorted_indices_perm (pieces : List Piece) :
    ((sorted pieces).map Prod.snd).Perm (List.range pieces.length) := by
  have h := (List.mergeSort_perm pieces.zipIdx fun a b => a.1.le b.1).map Prod.snd
  rw [List.zipIdx_map_snd, ← List.range_eq_range'] at h
  exact h

/-- Slots in order, positions in order, and every pair joins equal pieces. -/
theorem mergeWalk_spec (slots order : List (Piece × Nat)) (pairs : List (Nat × Nat))
    (h : mergeWalk slots order = some pairs) :
    pairs.map Prod.fst = slots.map Prod.snd ∧
      (pairs.map Prod.snd).Sublist (order.map Prod.snd) ∧
      ∀ pair ∈ pairs, ∃ p, (p, pair.1) ∈ slots ∧ (p, pair.2) ∈ order := by
  fun_induction mergeWalk slots order generalizing pairs with
  | case1 order => simp_all
  | case2 => simp at h
  | case3 slot slots found position rest ih =>
    obtain ⟨tail, ht, rfl⟩ := Option.map_eq_some_iff.1 h
    obtain ⟨hfst, hsnd, hmem⟩ := ih tail ht
    refine ⟨by rw [List.map_cons, List.map_cons, hfst], hsnd.cons_cons _, ?_⟩
    intro pair hp
    rcases List.mem_cons.1 hp with rfl | hp
    · exact ⟨_, List.mem_cons_self, List.mem_cons_self⟩
    · obtain ⟨p, h1, h2⟩ := hmem pair hp
      exact ⟨p, List.mem_cons_of_mem _ h1, List.mem_cons_of_mem _ h2⟩
  | case4 wanted slot slots found position rest hne hlt ih =>
    obtain ⟨hfst, hsnd, hmem⟩ := ih pairs h
    refine ⟨hfst, hsnd.cons _, ?_⟩
    intro pair hp
    obtain ⟨p, h1, h2⟩ := hmem pair hp
    exact ⟨p, h1, List.mem_cons_of_mem _ h2⟩
  | case5 => simp at h

/-- Every slot has its pair. -/
theorem mem_pairs_of_mergeWalk (pattern : List Piece) (order : List (Piece × Nat))
    (pairs : List (Nat × Nat)) (h : mergeWalk (sorted pattern) order = some pairs) (slot : Nat)
    (hs : slot < pattern.length) : (slot, (findEntry slot pairs).getD 0) ∈ pairs := by
  have hkeys : (pairs.map Prod.fst).Perm (List.range pattern.length) := by
    rw [(mergeWalk_spec _ _ pairs h).1]
    exact sorted_indices_perm pattern
  obtain ⟨⟨slot', position⟩, hp, rfl⟩ := List.mem_map.1 (hkeys.mem_iff.2 (List.mem_range.2 hs))
  rw [(findEntry_eq_some_iff slot' position pairs (hkeys.nodup_iff.2 List.nodup_range)).2 hp]
  exact hp

theorem testLiteral_eq_success_iff {pattern candidates : List Piece} {chosen : List Nat} :
    testLiteral pattern candidates = .success chosen ↔
      ∃ pairs, mergeWalk (sorted pattern) (sorted candidates) = some pairs ∧
        positions pattern.length pairs = chosen := by
  cases hw : mergeWalk (sorted pattern) (sorted candidates) with
  | some pairs => simp [testLiteral, hw]
  | none =>
    simp only [testLiteral, hw, reduceCtorEq, false_and, exists_false, iff_false]
    split <;> simp

theorem fits_of_testLiteral (pattern candidates : List Piece) (chosen : List Nat)
    (h : testLiteral pattern candidates = .success chosen) :
    (literal pattern).Fits candidates chosen := by
  obtain ⟨pairs, hw, rfl⟩ := testLiteral_eq_success_iff.1 h
  obtain ⟨-, hsnd, hmem⟩ := mergeWalk_spec _ _ pairs hw
  have hpair := mem_pairs_of_mergeWalk pattern _ pairs hw
  have hpositions : (pairs.map Prod.snd).Nodup :=
    hsnd.nodup ((sorted_indices_perm candidates).nodup_iff.2 List.nodup_range)
  rw [positions]
  refine ⟨?_, ?_⟩
  · refine List.nodup_range.map_on ?_
    intro a ha b hb hab
    have hinj := List.inj_on_of_nodup_map hpositions (hpair a (List.mem_range.1 ha))
      (hpair b (List.mem_range.1 hb)) hab
    exact (Prod.mk.inj hinj).1
  · rw [slots, List.forall₂_map_left_iff, List.forall₂_map_right_iff, List.forall₂_iff_get]
    refine ⟨by rw [List.length_range], ?_⟩
    intro slot hs hr
    obtain ⟨p, h1, h2⟩ := hmem _ (hpair slot hs)
    have hp : pattern[slot] = p :=
      (List.getElem_eq_iff hs).2 ((mem_sorted pattern p slot).1 h1)
    rw [List.get_eq_getElem, List.get_eq_getElem, List.getElem_range]
    exact ⟨p, (mem_sorted candidates p _).1 h2, by rw [hp]; exact decide_eq_true rfl⟩

end Matcher

end HexRules
