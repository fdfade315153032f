import HexRules.Proofs.ChainScope

/-!
# Slots of a chain

The slots of a chain are those of its links, link by link as they are written, each with its
predicate and its result.  When the links match one after the other (`Passes`), every link takes
its candidates from those that the links before it left over.  So the indices taken, slot by slot,
are a permutation of the indices given, and the scope shows what the slots bind, in slot order.

    walk ctx links indexed s = (.ok (.success ms), u) → Passes ctx links indexed s ms u
                                                                         (passes_of_walk)
    Passes ctx links indexed s ms u → (taken ms).Perm (indexed.map Prod.fst)  (perm_of_passes)
    Passes ctx links indexed s ms u → the slots accept what they take, and u shows what they bind
                                                                         (pieces_of_passes)
-/

namespace HexRules

/-! ## Slots -/

/-- A place in a pattern: what it takes, and what takes the place of that. -/
structure Slot where
  predicate : Predicate
  result : Expression

def Link.slots (l : Link) : List Slot :=
  (l.matcher.slots.zip l.results).map fun slot => ⟨slot.1, slot.2⟩

/-- All slots, link by link, those of a link as they are written. -/
def Chain.slots (c : Chain) : List Slot := c.links.flatMap Link.slots

/-- What slots bind for the pieces that they take, in the order of the slots. -/
def slotBindings (slots : List Slot) (pieces : List Piece) : List Binding :=
  (slots.zipWith (fun slot p => slot.predicate.binds p) pieces).flatten

namespace Link

theorem map_predicate_slots (l : Link) : l.slots.map Slot.predicate = l.matcher.slots := by
  have h := l.length_results
  rw [slots, List.map_map]
  exact List.map_fst_zip (Nat.le_of_eq (by rw [h, Matcher.length_slots]))

theorem map_result_slots (l : Link) : l.slots.map Slot.result = l.results := by
  have h := l.length_results
  rw [slots, List.map_map]
  exact List.map_snd_zip (Nat.le_of_eq (by rw [h, Matcher.length_slots]))

theorem length_slots (l : Link) : l.slots.length = l.matcher.length := by
  rw [← List.length_map Slot.predicate, map_predicate_slots, Matcher.length_slots]

theorem slotBindings_slots (l : Link) (pieces : List Piece) :
    slotBindings l.slots pieces = l.matcher.binds pieces := by
  rw [slotBindings, Matcher.binds, Matcher.slotBinds, ← map_predicate_slots,
    List.zipWith_map_left]

/-! ## Candidates taken and left over -/

theorem taken_perm {α : Type} (xs : List α) (chosen : List Nat) (h : chosen.Nodup) :
    (chosen.filterMap fun position => xs[position]?).Perm
      ((xs.zipIdx.filter fun c => c.2 ∈ chosen).map Prod.fst) := by
  have hfst : (chosen.filterMap fun position => xs[position]?) =
      (chosen.filterMap fun position => (xs[position]?).map fun x => (x, position)).map
        Prod.fst := by
    rw [List.map_filterMap]
    congr 1
    funext position
    cases xs[position]? <;> rfl
  rw [hfst]
  refine List.Perm.map Prod.fst ?_
  rw [List.perm_ext_iff_of_nodup]
  · intro c
    simp only [List.mem_filterMap, Option.map_eq_some_iff, List.mem_filter,
      List.mem_zipIdx_iff_getElem?, decide_eq_true_eq]
    constructor
    · rintro ⟨position, hm, x, hx, rfl⟩
      exact ⟨hx, hm⟩
    · rintro ⟨hx, hm⟩
      exact ⟨c.2, hm, c.1, hx, rfl⟩
  · refine h.filterMap ?_
    intro a b c ha hb
    obtain ⟨x, -, hx⟩ := Option.map_eq_some_iff.1 ha
    obtain ⟨y, -, hy⟩ := Option.map_eq_some_iff.1 hb
    exact (congrArg Prod.snd hx).trans (congrArg Prod.snd hy).symm
  · refine List.Nodup.filter _ (List.Nodup.of_map Prod.snd ?_)
    rw [List.zipIdx_map_snd]
    exact List.nodup_range'

/-- The candidates at the positions chosen and those left over are the candidates. -/
theorem leftover_perm {α : Type} (xs : List α) (chosen : List Nat) (h : chosen.Nodup) :
    ((chosen.filterMap fun position => xs[position]?) ++ leftover xs chosen).Perm xs := by
  have hsplit := (List.filter_append_perm (fun c => decide (c.2 ∈ chosen)) xs.zipIdx).map Prod.fst
  have hleft : leftover xs chosen =
      (xs.zipIdx.filter fun c => !decide (c.2 ∈ chosen)).map Prod.fst := by
    simp [leftover]
  rw [List.map_append, List.zipIdx_map_fst, ← hleft] at hsplit
  exact ((taken_perm xs chosen h).append (List.Perm.refl _)).trans hsplit

/-- The candidates after the first `n`. -/
theorem leftover_range {α : Type} (xs : List α) (n : Nat) :
    leftover xs (List.range n) = xs.drop n := by
  have hfrom : ∀ k, ((xs.zipIdx k).filter fun c => c.2 ∉ List.range n).map Prod.fst =
      xs.drop (n - k) := by
    induction xs with
    | nil => exact fun k => List.drop_nil.symm
    | cons x rest ih =>
      intro k
      rw [List.zipIdx_cons, List.filter_cons]
      by_cases hk : k < n
      · rw [if_neg (by simpa using hk), ih, show n - k = n - (k + 1) + 1 by omega,
          List.drop_succ_cons]
      · rw [if_pos (by simpa using hk), List.map_cons, ih, show n - k = 0 by omega,
          show n - (k + 1) = 0 by omega, List.drop_zero, List.drop_zero]
  exact hfrom 0

end Link

namespace Chain

/-- The candidates at the positions chosen, each with its index. -/
def entriesAt (indexed : List (Nat × Piece)) (chosen : List Nat) : List (Nat × Piece) :=
  chosen.filterMap fun position => indexed[position]?

theorem indicesAt_eq (indexed : List (Nat × Piece)) (chosen : List Nat) :
    indicesAt indexed chosen = (entriesAt indexed chosen).map Prod.fst := by
  rw [indicesAt, entriesAt, List.map_filterMap]

theorem piecesAt_eq (indexed : List (Nat × Piece)) (chosen : List Nat) :
    Matcher.piecesAt (indexed.map Prod.snd) chosen = (entriesAt indexed chosen).map Prod.snd := by
  rw [Matcher.piecesAt, entriesAt, List.map_filterMap]
  congr 1
  funext position
  rw [List.getElem?_map]

theorem mem_of_mem_entriesAt {indexed : List (Nat × Piece)} {chosen : List Nat}
    {entry : Nat × Piece} (h : entry ∈ entriesAt indexed chosen) : entry ∈ indexed := by
  obtain ⟨position, -, hp⟩ := List.mem_filterMap.1 h
  exact List.mem_of_getElem? hp

theorem mem_of_mem_leftover {α : Type} {xs : List α} {chosen : List Nat} {x : α}
    (h : x ∈ Link.leftover xs chosen) : x ∈ xs := by
  obtain ⟨c, hc, rfl⟩ := List.mem_map.1 h
  have hm := List.mem_zipIdx_iff_getElem?.1 (List.mem_filter.1 hc).1
  exact List.mem_of_getElem? hm

theorem map_snd_zipIdx (candidates : List Piece) :
    (candidates.zipIdx.map Prod.swap).map Prod.snd = candidates := by
  rw [List.map_map]
  exact List.zipIdx_map_fst 0 candidates

theorem map_fst_zipIdx (candidates : List Piece) :
    (candidates.zipIdx.map Prod.swap).map Prod.fst = List.range candidates.length := by
  rw [List.map_map, List.range_eq_range', ← List.zipIdx_map_snd]
  rfl

theorem indicesAt_zipIdx {candidates : List Piece} {chosen : List Nat}
    (h : ∀ position ∈ chosen, position < candidates.length) :
    indicesAt (candidates.zipIdx.map Prod.swap) chosen = chosen := by
  induction chosen with
  | nil => rfl
  | cons position rest ih =>
    have hlt := h position List.mem_cons_self
    have hget : (candidates.zipIdx.map Prod.swap)[position]? =
        some (position, candidates[position]) := by
      simp [hlt]
    rw [indicesAt, List.filterMap_cons_some (by rw [hget]; rfl)]
    exact congrArg (position :: ·) (ih fun p hp => h p (List.mem_cons_of_mem _ hp))

/-! ## Chains that match -/

/-- The links match one after the other, all guards hold, and nothing is left over. -/
inductive Passes (ctx : Context) :
    List Link → List (Nat × Piece) → Scope → List Matched → Scope → Prop
  | done (s : Scope) : Passes ctx [] [] s [] s
  | link {l : Link} {rest : List Link} {indexed : List (Nat × Piece)} {s u : Scope}
      {chosen : List Nat} {matched : List Matched}
      (fits : l.matcher.Fits (indexed.map Prod.snd) chosen)
      (guard : l.guardHolds ctx (linkScope l indexed chosen s) = .ok true)
      (onward : Passes ctx rest (Link.leftover indexed chosen) (linkScope l indexed chosen s)
        matched u) :
      Passes ctx (l :: rest) indexed s (⟨l, indicesAt indexed chosen⟩ :: matched) u

theorem passes_of_walk {ctx : Context} {links : List Link} {indexed : List (Nat × Piece)}
    {s u : Scope} {matched : List Matched}
    (h : walk ctx links indexed s = (.ok (.success matched), u)) :
    Passes ctx links indexed s matched u := by
  induction links generalizing indexed s matched with
  | nil =>
    rw [walk] at h
    cases indexed with
    | nil =>
      obtain ⟨hm, rfl⟩ := Prod.mk.inj h
      cases hm
      exact .done s
    | cons entry rest => cases h
  | cons l rest ih =>
    rcases walk_cons_cases ctx l rest indexed s with hw | hw | ⟨chosen, hfits, hw⟩
    · rw [hw] at h
      cases h
    · rw [hw] at h
      cases h
    · rw [hw] at h
      cases hg : l.guardHolds ctx (linkScope l indexed chosen s) with
      | error e => simp [hg] at h
      | ok holds =>
        cases holds with
        | false => simp [hg] at h
        | true =>
          simp only [hg] at h
          obtain ⟨after, hrest, rfl⟩ := exists_of_withLink h
          exact .link hfits hg (ih hrest)

/-- The indices of the candidates taken, slot by slot. -/
def taken (matched : List Matched) : List Nat := matched.flatMap Matched.indices

variable {ctx : Context} {links : List Link} {indexed : List (Nat × Piece)} {s u : Scope}
  {matched : List Matched}

theorem Passes.map_link (h : Passes ctx links indexed s matched u) :
    matched.map Matched.link = links := by
  induction h with
  | done s => rfl
  | link fits guard onward ih => rw [List.map_cons, ih]

theorem perm_of_passes (h : Passes ctx links indexed s matched u) :
    (taken matched).Perm (indexed.map Prod.fst) := by
  induction h with
  | done s => exact .refl _
  | @link l rest indexed s u chosen matched fits guard onward ih =>
    have hperm := (Link.leftover_perm indexed chosen fits.nodup).map Prod.fst
    rw [List.map_append] at hperm
    have hsplit : taken (⟨l, indicesAt indexed chosen⟩ :: matched) =
        (entriesAt indexed chosen).map Prod.fst ++ taken matched := by
      rw [← indicesAt_eq]
      rfl
    rw [hsplit]
    exact ((List.Perm.refl _).append ih).trans hperm

/-- Every slot accepts the piece that it takes, and what the slots bind is seen, over what was bound
before, the latest first. -/
theorem pieces_of_passes (h : Passes ctx links indexed s matched u) :
    ∃ pieces, List.Forall₂ (fun index p => (index, p) ∈ indexed) (taken matched) pieces ∧
      List.Forall₂ (fun slot p => slot.predicate.accepts p = true)
        (links.flatMap Link.slots) pieces ∧
      ∀ name, u.get? name =
        (findEntry name (slotBindings (links.flatMap Link.slots) pieces).reverse).or
          (s.get? name) := by
  induction h with
  | done s => exact ⟨[], .nil, .nil, fun name => rfl⟩
  | @link l rest indexed s u chosen matched fits guard onward ih =>
    obtain ⟨pieces, hindices, haccepts, hscope⟩ := ih
    have hown : List.Forall₂ (fun slot p => slot.predicate.accepts p = true) l.slots
        ((entriesAt indexed chosen).map Prod.snd) := by
      have hfits := fits.accepts
      rw [← l.map_predicate_slots, List.forall₂_map_left_iff, piecesAt_eq] at hfits
      exact hfits
    refine ⟨(entriesAt indexed chosen).map Prod.snd ++ pieces, ?_, ?_, ?_⟩
    · have htaken : List.Forall₂ (fun index p => (index, p) ∈ indexed) (indicesAt indexed chosen)
          ((entriesAt indexed chosen).map Prod.snd) := by
        rw [indicesAt_eq, List.forall₂_map_left_iff, List.forall₂_map_right_iff,
          List.forall₂_same]
        exact fun entry he => mem_of_mem_entriesAt he
      have hrest := hindices.imp fun index p hm => mem_of_mem_leftover hm
      exact List.rel_append htaken hrest
    · exact List.rel_append hown haccepts
    · intro name
      have hbindings : slotBindings (l.slots ++ rest.flatMap Link.slots)
          ((entriesAt indexed chosen).map Prod.snd ++ pieces) =
            l.matcher.binds ((entriesAt indexed chosen).map Prod.snd) ++
              slotBindings (rest.flatMap Link.slots) pieces := by
        rw [← l.slotBindings_slots, slotBindings, List.zipWith_append hown.length_eq,
          List.flatten_append]
        rfl
      rw [hscope name, linkScope, Matcher.get?_bound, piecesAt_eq, List.flatMap_cons, hbindings,
        List.reverse_append, findEntry_append, Option.or_assoc]
      rfl

end Chain

end HexRules
