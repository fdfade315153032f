import HexRules.Proofs.Pairing
import Mathlib.Data.List.FinRange

/-!
# What a searched pattern decides

A search of a pattern asks of its slots whether they accept a piece.  As long as a slot answers by
the piece alone, and does nothing to the scope but bind names in the current frame, the two searches
decide whether there are injective maps: one of slots to candidates for a success, or else, when
there are fewer candidates, one of candidates to slots.  With as many candidates as slots a map one
way can be turned round, so when the first search has failed so does the second.

    positions, none twice, of related elements ↔ the values of an embedding
                                                                         (positions_iff_embedding)
    Embeds r xs ys ↔ Injects r xs ys                                     (embeds_iff_injects)
    the search of a pattern by its tests: how it ends                    (search_cases)
    its answer decides which embeddings there are                        (decides_search)
-/

namespace HexRules

/-! ## Embeddings -/

/-- An injective map from the places of `xs` to those of `ys` that gives every element one that it is
related to. -/
structure Embedding {α β : Type} (r : α → β → Prop) (xs : List α) (ys : List β)
    (f : Fin xs.length → Fin ys.length) : Prop where
  injective : Function.Injective f
  related : ∀ i, r xs[i] ys[f i]

def Embeds {α β : Type} (r : α → β → Prop) (xs : List α) (ys : List β) : Prop :=
  ∃ f, Embedding r xs ys f

section

variable {α β : Type} {r : α → β → Prop} {xs : List α} {ys : List β}

/-- Positions, none of them twice, at which stand elements that those of `xs` are related to, are the
values of an embedding. -/
theorem positions_iff_embedding (positions : List Nat) :
    (positions.Nodup ∧ List.Forall₂ (fun x j => ∃ y, ys[j]? = some y ∧ r x y) xs positions) ↔
      ∃ f, Embedding r xs ys f ∧ positions = List.ofFn fun i => (f i).val := by
  constructor
  · rintro ⟨hnodup, hall⟩
    obtain ⟨hlen, hget⟩ := List.forall₂_iff_get.1 hall
    have hplace : ∀ i : Fin xs.length, ∃ h : positions[i] < ys.length, r xs[i] ys[positions[i]] := by
      intro i
      obtain ⟨y, hy, hr⟩ := hget i i.2 (hlen ▸ i.2)
      obtain ⟨hlt, rfl⟩ := List.getElem?_eq_some_iff.1 hy
      exact ⟨hlt, hr⟩
    refine ⟨fun i => ⟨positions[i], (hplace i).1⟩, ⟨?_, fun i => (hplace i).2⟩, ?_⟩
    · intro i j hij
      exact Fin.ext (hnodup.getElem_inj_iff.1 (Fin.mk.inj hij))
    · refine List.ext_getElem (by simp [hlen]) fun i hi _ => ?_
      simp
  · rintro ⟨f, hf, rfl⟩
    refine ⟨List.nodup_ofFn.2 (Fin.val_injective.comp hf.injective), ?_⟩
    refine List.forall₂_iff_get.2 ⟨by simp, fun i hi hi' => ?_⟩
    refine ⟨ys[f ⟨i, hi⟩], ?_, hf.related ⟨i, hi⟩⟩
    simp

namespace Assignment

variable {accepted : Nat → Nat → Bool}
  (haccepted : ∀ i j, accepted i j = true ↔ ∃ x y, xs[i]? = some x ∧ ys[j]? = some y ∧ r x y)

include haccepted

theorem embedding_of_least {chosen : List Nat}
    (h : least accepted ys.length xs.length [] = some chosen) :
    ∃ f, Embedding r xs ys f ∧ chosen = List.ofFn fun i => (f i).val := by
  obtain ⟨hcompletes, hlen, -⟩ := least_spec h
  exact (positions_iff_embedding chosen).1
    ((completes_iff_forall₂ haccepted chosen).1 ⟨hcompletes, hlen⟩)

theorem isSome_least_iff_embeds :
    (least accepted ys.length xs.length []).isSome = true ↔ Embeds r xs ys := by
  constructor
  · intro h
    obtain ⟨chosen, hchosen⟩ := Option.isSome_iff_exists.1 h
    obtain ⟨f, hf, -⟩ := embedding_of_least haccepted hchosen
    exact ⟨f, hf⟩
  · rintro ⟨f, hf⟩
    exact isSome_least_iff.2 ⟨_, (completes_iff_forall₂ haccepted _).2
      ((positions_iff_embedding _).2 ⟨f, hf, rfl⟩)⟩

end Assignment

open Classical in
/-- Both say what the search for an assignment decides. -/
theorem embeds_iff_injects : Embeds r xs ys ↔ Injects r xs ys := by
  have haccepted : ∀ i j : Nat,
      decide (∃ x y, xs[i]? = some x ∧ ys[j]? = some y ∧ r x y) = true ↔
        ∃ x y, xs[i]? = some x ∧ ys[j]? = some y ∧ r x y := fun _ _ => decide_eq_true_iff
  exact (Assignment.isSome_least_iff_embeds haccepted).symm.trans
    (Assignment.isSome_least_iff_injects haccepted)

theorem Embeds.length_le (h : Embeds r xs ys) : xs.length ≤ ys.length :=
  (embeds_iff_injects.1 h).length_le

/-- With no more of `ys` than of `xs`, an embedding can be turned round. -/
theorem Embeds.flip (h : Embeds r xs ys) (hlen : ys.length ≤ xs.length) :
    Embeds (fun y x => r x y) ys xs :=
  embeds_iff_injects.2 ((embeds_iff_injects.1 h).flip hlen)

end

open Assignment

/-! ## What is decided -/

/-- What an answer says of slots and candidates, when `r` says which slot accepts which piece. -/
structure Decides {α : Type} (r : α → Piece → Prop) (slots : List α) (candidates : List Piece)
    (s : Scope) (answer : Outcome (List Nat) × Scope) : Prop where
  success : answer.1.status = .success ↔ Embeds r slots candidates
  pending : answer.1.status = .pending ↔
    candidates.length < slots.length ∧ Embeds (fun p a => r a p) candidates slots
  failure : answer.1.status = .failure ↔ ¬ Embeds r slots candidates ∧
    ¬ (candidates.length < slots.length ∧ Embeds (fun p a => r a p) candidates slots)
  /-- The answer to a success is where the slots are sent. -/
  positions : ∀ chosen, answer.1 = .success chosen →
    ∃ f, Embedding r slots candidates f ∧ chosen = List.ofFn fun i => (f i).val
  /-- A scope is left as it was, unless the answer is a success. -/
  scope : answer.1.status ≠ .success → answer.2 = s

section

variable {α : Type} {r : α → Piece → Prop} {slots : List α} {candidates : List Piece} {s : Scope}

theorem decides_success {f : Fin slots.length → Fin candidates.length}
    (hf : Embedding r slots candidates f) (t : Scope) :
    Decides r slots candidates s (.success (List.ofFn fun i => (f i).val), t) := by
  have hembeds : Embeds r slots candidates := ⟨f, hf⟩
  have hmany : ¬ candidates.length < slots.length := by
    have hle := hembeds.length_le
    omega
  refine ⟨iff_of_true rfl hembeds, iff_of_false (by simp [Outcome.status]) fun h => hmany h.1,
    iff_of_false (by simp [Outcome.status]) fun h => h.1 hembeds, ?_, fun h => absurd rfl h⟩
  rintro _ ⟨⟩
  exact ⟨f, hf, rfl⟩

/-- Where there are as many candidates as slots, the second search comes to nothing: what it would
find, turned round, the first one would have found. -/
theorem decides_none (hno : ¬ Embeds r slots candidates) {extended : Bool}
    (hextend : extended = true ↔ Embeds (fun p a => r a p) candidates slots) :
    Decides r slots candidates s (if extended then .pending else .failure, s) := by
  cases extended with
  | true =>
    have hembeds := hextend.1 rfl
    have hfew : candidates.length < slots.length := by
      by_contra hmany
      exact hno (hembeds.flip (by omega))
    exact ⟨iff_of_false (by simp [Outcome.status]) hno, iff_of_true rfl ⟨hfew, hembeds⟩,
      iff_of_false (by simp [Outcome.status]) fun h => h.2 ⟨hfew, hembeds⟩, by simp, fun _ => rfl⟩
  | false =>
    have hnot : ¬ Embeds (fun p a => r a p) candidates slots :=
      fun h => Bool.false_ne_true (hextend.2 h)
    exact ⟨iff_of_false (by simp [Outcome.status]) hno,
      iff_of_false (by simp [Outcome.status]) fun h => hnot h.2,
      iff_of_true rfl ⟨hno, fun h => hnot h.2⟩, by simp, fun _ => rfl⟩

theorem PieceTests.decides_search (k : PieceTests α) (slots : List α) (candidates : List Piece)
    (s : Scope) :
    Decides (fun a p => k.accepts a p = true) slots candidates s (k.search slots candidates s) := by
  have haccepted := k.takes_iff slots candidates
  rcases k.search_cases slots candidates s with ⟨chosen, t, hchosen, hend⟩ | ⟨hnone, hend⟩
  · obtain ⟨f, hf, rfl⟩ := embedding_of_least haccepted hchosen
    rw [hend]
    exact decides_success hf t
  · have hno : ¬ Embeds (fun a p => k.accepts a p = true) slots candidates := by
      rw [← isSome_least_iff_embeds haccepted]
      change ¬ (k.firstMatch slots candidates).isSome = true
      rw [hnone]
      exact Bool.false_ne_true
    rw [hend]
    exact decides_none hno (isSome_least_iff_embeds (k.takes_flip_iff slots candidates))

end

/-- **A searched pattern decides which injective maps there are.**  Take slots whose tests answer by
the piece alone and do nothing to the scope but bind names in the current frame, any candidates and
any scope.  The search succeeds exactly if the slots can be sent to candidates of their own that they
accept, and it answers with the positions of such candidates.  It is pending exactly if there are
fewer candidates than slots and these can be sent to slots of their own that accept them, and else it
fails.  Unless it succeeds it leaves the scope as it was.  The predicates of the library are such
tests, so all this holds of a pattern of predicates. -/
theorem search_decides_embeddings :
    (∀ {α : Type} (k : PieceTests α) (slots : List α) (candidates : List Piece) (s : Scope),
      Decides (fun a p => k.accepts a p = true) slots candidates s
        (k.search slots candidates s)) ∧
    ∀ (predicates : List Predicate) (candidates : List Piece) (s : Scope),
      Decides (fun q p => q.accepts p = true) predicates candidates s
        ((Matcher.search predicates).test candidates s) := by
  refine ⟨fun k slots candidates s => k.decides_search slots candidates s, ?_⟩
  intro predicates candidates s
  rw [Matcher.test, Matcher.testSearch_eq]
  exact Predicate.tests.decides_search predicates candidates s

end HexRules
