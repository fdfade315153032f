import HexRules.Proofs.ChainSlots
import HexRules.Proofs.PatternOutcome
import Mathlib.Data.List.NodupEquivFin
import Mathlib.Data.List.Perm.Basic

/-!
# Pairing slots with candidates

`Injects r xs ys` says that all of `xs` can have elements of `ys` of their own that they are related
to.  It depends on the two multisets only, and fewer of `xs` or more of `ys` can only help.  Both
searches of a pattern decide it, one for the slots and one for the candidates:

    outcome slots candidates succeeds ↔ the slots inject into the candidates
                                                                         (success_iff_matches)
    outcome slots candidates = .pending ↔ there are fewer candidates than slots, and they inject
      into the slots                                                     (pending_iff_extends)
-/

namespace HexRules

/-! ## Lists related one by one -/

theorem exists_forall₂_of_sublist {α β : Type} {r : α → β → Prop} {xs xs' : List α} {zs : List β}
    (h : List.Forall₂ r xs zs) (hsub : xs'.Sublist xs) :
    ∃ ws, ws.Sublist zs ∧ List.Forall₂ r xs' ws := by
  induction hsub generalizing zs with
  | slnil => exact ⟨[], List.nil_sublist zs, .nil⟩
  | cons x _ ih =>
    obtain ⟨z, rest, -, hrest, rfl⟩ := List.forall₂_cons_left_iff.1 h
    obtain ⟨ws, hws, hall⟩ := ih hrest
    exact ⟨ws, hws.cons z, hall⟩
  | cons_cons x _ ih =>
    obtain ⟨z, rest, hxz, hrest, rfl⟩ := List.forall₂_cons_left_iff.1 h
    obtain ⟨ws, hws, hall⟩ := ih hrest
    exact ⟨z :: ws, hws.cons_cons z, .cons hxz hall⟩

theorem exists_forall₂_of_forall_mem {α β : Type} {r : α → β → Prop} {ys : List β}
    (h : ∀ y ∈ ys, ∃ x, r x y) : ∃ xs, List.Forall₂ r xs ys := by
  induction ys with
  | nil => exact ⟨[], .nil⟩
  | cons y rest ih =>
    obtain ⟨x, hx⟩ := h y List.mem_cons_self
    obtain ⟨xs, hxs⟩ := ih fun y' hy' => h y' (List.mem_cons_of_mem y hy')
    exact ⟨x :: xs, .cons hx hxs⟩

/-! ## Partners of their own -/

/-- Every one of `xs` can have an element of `ys` of its own that it is related to. -/
def Injects {α β : Type} (r : α → β → Prop) (xs : List α) (ys : List β) : Prop :=
  ∃ zs, zs.Subperm ys ∧ List.Forall₂ r xs zs

/-- Elements of a list stand at distinct positions of it. -/
theorem exists_positions_of_subperm {β : Type} {zs ys : List β} (h : zs.Subperm ys) :
    ∃ positions : List Nat, positions.Nodup ∧
      List.Forall₂ (fun z j => ys[j]? = some z) zs positions := by
  obtain ⟨l, hperm, hsub⟩ := h
  obtain ⟨f, hf⟩ := List.sublist_iff_exists_orderEmbedding_getElem?_eq.1 hsub
  have hl : List.Forall₂ (fun z j => ys[j]? = some z) l ((List.range l.length).map f) := by
    refine List.forall₂_iff_get.2 ⟨by rw [List.length_map, List.length_range], ?_⟩
    intro i hi hi'
    rw [List.get_eq_getElem, List.get_eq_getElem, List.getElem_map, List.getElem_range, ← hf,
      List.getElem?_eq_getElem hi]
  obtain ⟨positions, hall, hpositions⟩ := List.perm_comp_forall₂ hperm.symm hl
  exact ⟨positions, hpositions.nodup_iff.2 (List.nodup_range.map f.injective), hall⟩

namespace Injects

variable {α β : Type} {r : α → β → Prop} {xs xs' : List α} {ys : List β}

theorem length_le (h : Injects r xs ys) : xs.length ≤ ys.length := by
  obtain ⟨zs, hsub, hall⟩ := h
  rw [hall.length_eq]
  exact hsub.length_le

/-- Those that are left keep their partners. -/
theorem of_sublist (h : Injects r xs ys) (hsub : xs'.Sublist xs) : Injects r xs' ys := by
  obtain ⟨zs, hzs, hall⟩ := h
  obtain ⟨ws, hws, hall'⟩ := exists_forall₂_of_sublist hall hsub
  exact ⟨ws, hws.subperm.trans hzs, hall'⟩

theorem of_perm (h : Injects r xs ys) (hperm : xs'.Perm xs) : Injects r xs' ys := by
  obtain ⟨zs, hzs, hall⟩ := h
  obtain ⟨ws, hall', hws⟩ := List.perm_comp_forall₂ hperm hall
  exact ⟨ws, hws.subperm.trans hzs, hall'⟩

theorem of_subperm_left (h : Injects r xs ys) (hsub : xs'.Subperm xs) : Injects r xs' ys := by
  obtain ⟨l, hperm, hl⟩ := hsub
  exact (h.of_sublist hl).of_perm hperm.symm

theorem of_subperm_right {ys' : List β} (h : Injects r xs ys) (hsub : ys.Subperm ys') :
    Injects r xs ys' := by
  obtain ⟨zs, hzs, hall⟩ := h
  exact ⟨zs, hzs.trans hsub, hall⟩

/-- When there are as many of both, the pairing can be read from the other side. -/
theorem flip (h : Injects r xs ys) (hlen : ys.length ≤ xs.length) :
    Injects (fun y x => r x y) ys xs := by
  obtain ⟨zs, hzs, hall⟩ := h
  have hperm : zs.Perm ys := hzs.perm_of_length_le (by rw [← hall.length_eq]; exact hlen)
  have hback : Injects (fun y x => r x y) zs xs :=
    ⟨xs, List.Subperm.refl xs, List.Forall₂.flip hall⟩
  exact hback.of_perm hperm.symm

/-- The elements of `ys` that are left without a partner can be given partners. -/
theorem exists_append (h : Injects r xs ys) {known : α → Prop}
    (hknown : ∀ y ∈ ys, ∃ x, known x ∧ r x y) :
    ∃ more, (∀ x ∈ more, known x) ∧ more.length + xs.length = ys.length ∧
      Injects (fun y x => r x y) ys (xs ++ more) := by
  obtain ⟨zs, ⟨l, hperm, hl⟩, hall⟩ := h
  obtain ⟨rest, hrest⟩ := hl.exists_perm_append
  have hsplit : ys.Perm (zs ++ rest) := hrest.trans (hperm.append_right rest)
  have hrest' : ∀ y ∈ rest, ∃ x, known x ∧ r x y := fun y hy =>
    hknown y (hsplit.mem_iff.2 (List.mem_append_right zs hy))
  obtain ⟨more, hmore⟩ := exists_forall₂_of_forall_mem hrest'
  obtain ⟨hmem, hrelated⟩ := (List.forall₂_and_left _ _).1 hmore
  refine ⟨more, hmem, ?_, ?_⟩
  · have hlen := hsplit.length_eq
    rw [List.length_append, ← hall.length_eq, ← hrelated.length_eq] at hlen
    omega
  · have hboth : List.Forall₂ (fun y x => r x y) (zs ++ rest) (xs ++ more) :=
      List.rel_append (List.Forall₂.flip hall) (List.Forall₂.flip hrelated)
    exact of_perm ⟨xs ++ more, List.Subperm.refl _, hboth⟩ hsplit

end Injects

/-! ## What the searches decide -/

namespace Assignment

variable {α β : Type} {r : α → β → Prop} {accepted : Nat → Nat → Bool} {xs : List α} {ys : List β}

theorem isSome_least_iff_injects
    (haccepted : ∀ i j, accepted i j = true ↔ ∃ x y, xs[i]? = some x ∧ ys[j]? = some y ∧ r x y) :
    (least accepted ys.length xs.length []).isSome = true ↔ Injects r xs ys := by
  rw [isSome_least_iff]
  constructor
  · rintro ⟨more, hmore⟩
    obtain ⟨hnodup, hall⟩ := (completes_iff_forall₂ haccepted more).1 hmore
    have hperm := Link.leftover_perm ys more hnodup
    refine ⟨_, (List.sublist_append_left _ _).subperm.trans hperm.subperm, ?_⟩
    clear hmore hnodup hperm haccepted
    induction hall with
    | nil => exact .nil
    | cons hx _ ih =>
      obtain ⟨y, hy, hr⟩ := hx
      rw [List.filterMap_cons_some hy]
      exact .cons hr ih
  · rintro ⟨zs, hsub, hall⟩
    obtain ⟨positions, hnodup, hpositions⟩ := exists_positions_of_subperm hsub
    refine ⟨positions, (completes_iff_forall₂ haccepted positions).2 ⟨hnodup, ?_⟩⟩
    clear hsub hnodup haccepted
    induction hall generalizing positions with
    | nil =>
      cases hpositions
      exact .nil
    | cons hxz _ ih =>
      cases hpositions with
      | cons hz hrest => exact .cons ⟨_, hz, hxz⟩ (ih _ hrest)

end Assignment

namespace Matcher

open Assignment

/-- Every slot can have a candidate of its own that it accepts. -/
def Matches (slots : List Predicate) (candidates : List Piece) : Prop :=
  Injects (fun q p => q.accepts p = true) slots candidates

/-- Every candidate can have a slot of its own that accepts it. -/
def Extends (slots : List Predicate) (candidates : List Piece) : Prop :=
  Injects (fun p q => q.accepts p = true) candidates slots

variable (slots : List Predicate) (candidates : List Piece)

theorem isSome_firstMatch_iff_matches :
    (firstMatch slots candidates).isSome = true ↔ Matches slots candidates :=
  isSome_least_iff_injects (takes_iff slots candidates)

theorem isSome_firstExtension_iff_extends :
    (firstExtension slots candidates).isSome = true ↔ Extends slots candidates := by
  refine isSome_least_iff_injects fun position slot => ?_
  rw [takes_iff]
  constructor
  · rintro ⟨q, p, hq, hp, ha⟩
    exact ⟨p, q, hp, hq, ha⟩
  · rintro ⟨p, q, hp, hq, ha⟩
    exact ⟨q, p, hq, hp, ha⟩

theorem success_iff_matches :
    (∃ chosen, outcome slots candidates = .success chosen) ↔ Matches slots candidates := by
  rw [← isSome_firstMatch_iff_matches, outcome]
  cases firstMatch slots candidates with
  | some chosen => simp
  | none =>
    by_cases h : (firstExtension slots candidates).isSome = true <;> simp [h]

/-- With as many candidates as slots both searches find the same. -/
theorem pending_iff_extends :
    outcome slots candidates = .pending ↔
      candidates.length < slots.length ∧ Extends slots candidates := by
  have hmatch := isSome_firstMatch_iff_matches slots candidates
  have hextend := isSome_firstExtension_iff_extends slots candidates
  constructor
  · intro h
    have hextends : Extends slots candidates := by
      rw [← hextend]
      by_contra hno
      rw [outcome] at h
      split at h
      · cases h
      · rw [if_neg hno] at h
        cases h
    refine ⟨?_, hextends⟩
    by_contra hlen
    have hsome := hmatch.2 (hextends.flip (by omega))
    obtain ⟨chosen, hchosen⟩ := Option.isSome_iff_exists.1 hsome
    rw [outcome, hchosen] at h
    cases h
  · rintro ⟨hlen, hextends⟩
    have hnone : firstMatch slots candidates = none := by
      rw [← Option.not_isSome_iff_eq_none, hmatch]
      intro hmatches
      have hle := Injects.length_le hmatches
      omega
    rw [outcome, hnone]
    simp only [hextend.2 hextends, if_true]

end Matcher

end HexRules
