import HexRules.Proofs.LiteralSearch
import Mathlib.Data.List.Lemmas
import Mathlib.Data.Multiset.Defs

/-!
# First come, first served

A literal pattern is compared by sorting, but what it gives its slots can be said without sorting:
slot by slot, in the order in which they are written, each takes the first candidate equal to its
piece of those that are left.  `serve` does just that, on candidates that carry an index.

    serve (xs ++ ys) = serve xs, then serve ys on what is left           (serve_append)
    testLiteral pattern (the pieces of entries) succeeds with `chosen`
      → serve pattern entries = some (their indices, the entries left over)
                                                                         (serve_of_testLiteral)
    serve pattern entries = some (taken, left)
      → the k-th slot that asks for `x` is served the k-th entry of `x`  (getElem?_of_serve)

So a literal pattern decides how pattern and candidates compare as multisets, and pairs equal pieces
in turn (`literal_decides_inclusion`).
-/

namespace HexRules

/-- Give the slots their pieces in turn, each the first one of those left: the indices taken, slot
by slot, and the entries left over. -/
def serve : List Piece → List (Nat × Piece) → Option (List Nat × List (Nat × Piece))
  | [], entries => some ([], entries)
  | wanted :: rest, entries =>
    (entries.find? fun e => e.2 = wanted).bind fun e =>
      (serve rest (entries.eraseP fun e => e.2 = wanted)).map fun r => (e.1 :: r.1, r.2)

/-! ## One slot after the other -/

theorem serve_cons_of_first {wanted : Piece} {before after : List (Nat × Piece)}
    (hbefore : ∀ e ∈ before, e.2 ≠ wanted) (index : Nat) (rest : List Piece) :
    serve (wanted :: rest) (before ++ (index, wanted) :: after) =
      (serve rest (before ++ after)).map fun r => (index :: r.1, r.2) := by
  have hfind : (before ++ (index, wanted) :: after).find? (fun e => decide (e.2 = wanted)) =
      some (index, wanted) := by
    rw [List.find?_append, List.find?_eq_none.2 (by simpa using hbefore)]
    simp
  have herase : (before ++ (index, wanted) :: after).eraseP (fun e => decide (e.2 = wanted)) =
      before ++ after := by
    rw [List.eraseP_append_right _ (by simpa using hbefore), List.eraseP_cons_of_pos (by simp)]
  rw [serve, hfind, herase]
  rfl

/-- All that serving a slot can do. -/
theorem serve_cons_eq_some_iff {wanted : Piece} {rest : List Piece}
    {entries left : List (Nat × Piece)} {taken : List Nat} :
    serve (wanted :: rest) entries = some (taken, left) ↔
      ∃ before index after more, entries = before ++ (index, wanted) :: after ∧
        (∀ e ∈ before, e.2 ≠ wanted) ∧ serve rest (before ++ after) = some (more, left) ∧
        taken = index :: more := by
  constructor
  · intro h
    obtain ⟨⟨index, piece⟩, hfind, -⟩ := Option.bind_eq_some_iff.1 h
    obtain ⟨hpiece, before, after, rfl, hbefore⟩ := List.find?_eq_some_iff_append.1 hfind
    obtain rfl : piece = wanted := of_decide_eq_true hpiece
    have hfirst : ∀ e ∈ before, e.2 ≠ piece := fun e he => by simpa using hbefore e he
    rw [serve_cons_of_first hfirst] at h
    obtain ⟨⟨more, left'⟩, hmore, heq⟩ := Option.map_eq_some_iff.1 h
    cases heq
    exact ⟨before, index, after, more, rfl, hfirst, hmore, rfl⟩
  · rintro ⟨before, index, after, more, rfl, hbefore, hmore, rfl⟩
    rw [serve_cons_of_first hbefore, hmore]
    rfl

/-- The slots of two patterns one after the other. -/
theorem serve_append (xs ys : List Piece) (entries : List (Nat × Piece)) :
    serve (xs ++ ys) entries =
      (serve xs entries).bind fun r => (serve ys r.2).map fun r' => (r.1 ++ r'.1, r'.2) := by
  induction xs generalizing entries with
  | nil =>
    rw [List.nil_append, serve, Option.bind_some]
    cases serve ys entries <;> rfl
  | cons x xs ih =>
    simp only [List.cons_append, serve, ih, Option.map_bind, Option.bind_assoc, Option.bind_map,
      Option.map_map, Function.comp_def]

/-- What is taken and what is left are all that there was. -/
theorem perm_of_serve {pattern : List Piece} {entries left : List (Nat × Piece)} {taken : List Nat}
    (h : serve pattern entries = some (taken, left)) :
    (entries.map Prod.snd).Perm (pattern ++ left.map Prod.snd) := by
  induction pattern generalizing entries taken with
  | nil =>
    cases h
    exact .refl _
  | cons wanted rest ih =>
    obtain ⟨before, index, after, more, rfl, -, hmore, rfl⟩ := serve_cons_eq_some_iff.1 h
    have hrest := (ih hmore).cons wanted
    rw [List.map_append] at hrest
    rw [List.map_append, List.map_cons]
    exact List.perm_middle.trans hrest

/-! ## Positions and what they leave over -/

/-- What a position that is chosen takes out of those left over. -/
theorem exists_leftover_split {α : Type} {xs : List α} {chosen : List Nat} {position : Nat} {x : α}
    (hx : xs[position]? = some x) (hfresh : position ∉ chosen) :
    ∃ before after, Link.leftover xs chosen = before ++ x :: after ∧
      Link.leftover xs (chosen ++ [position]) = before ++ after ∧
      ∀ y ∈ before, ∃ p, p < position ∧ p ∉ chosen ∧ xs[p]? = some y := by
  obtain ⟨hlt, rfl⟩ := List.getElem?_eq_some_iff.1 hx
  have hsplit : xs.zipIdx = (xs.take position).zipIdx ++
      (xs[position], position) :: (xs.drop (position + 1)).zipIdx (position + 1) := by
    conv => lhs; rw [← List.take_append_drop position xs, List.drop_eq_getElem_cons hlt]
    rw [List.zipIdx_append, List.zipIdx_cons, List.length_take, Nat.zero_add,
      Nat.min_eq_left (Nat.le_of_lt hlt)]
  have hbefore : ∀ c ∈ (xs.take position).zipIdx, c.2 < position ∧ xs[c.2]? = some c.1 := by
    intro c hc
    have hget := List.mem_zipIdx_iff_getElem?.1 hc
    rw [List.getElem?_take] at hget
    split at hget
    · exact ⟨‹_›, hget⟩
    · cases hget
  have hafter : ∀ c ∈ (xs.drop (position + 1)).zipIdx (position + 1), position < c.2 := by
    intro c hc
    exact List.le_snd_of_mem_zipIdx hc
  refine ⟨((xs.take position).zipIdx.filter fun c => c.2 ∉ chosen).map Prod.fst,
    (((xs.drop (position + 1)).zipIdx (position + 1)).filter fun c => c.2 ∉ chosen).map Prod.fst,
    ?_, ?_, ?_⟩
  · rw [Link.leftover, hsplit, List.filter_append, List.filter_cons_of_pos (by simpa using hfresh),
      List.map_append, List.map_cons]
  · rw [Link.leftover, hsplit, List.filter_append, List.filter_cons_of_neg (by simp),
      List.map_append]
    congr 2
    · refine List.filter_congr fun c hc => ?_
      have hne := Nat.ne_of_lt (hbefore c hc).1
      simp [hne]
    · refine List.filter_congr fun c hc => ?_
      have hne := Nat.ne_of_gt (hafter c hc)
      simp [hne]
  · intro y hy
    obtain ⟨c, hc, rfl⟩ := List.mem_map.1 hy
    obtain ⟨hmem, hnot⟩ := List.mem_filter.1 hc
    exact ⟨c.2, (hbefore c hmem).1, of_decide_eq_true hnot, (hbefore c hmem).2⟩

/-- Positions that are first fit, after those in `gone`, are what the slots are served.  The
induction is on the slots: the entry that the next one takes has nothing of its piece before it. -/
theorem serve_leftover {entries : List (Nat × Piece)} {pattern : List Piece} {chosen : List Nat}
    (gone : List Nat) (hnodup : (gone ++ chosen).Nodup)
    (htakes : List.Forall₂ (fun wanted position => ∃ index,
      entries[position]? = some (index, wanted)) pattern chosen)
    (hfirst : ∀ slot position, chosen[slot]? = some position → ∀ p, p < position →
      ∀ index wanted, pattern[slot]? = some wanted → entries[p]? = some (index, wanted) →
        p ∈ gone ∨ p ∈ chosen.take slot) :
    serve pattern (Link.leftover entries gone) =
      some (indicesAt entries chosen, Link.leftover entries (gone ++ chosen)) := by
  induction htakes generalizing gone with
  | nil => rw [List.append_nil]; rfl
  | @cons wanted position pattern chosen htake _ ih =>
    obtain ⟨index, hentry⟩ := htake
    have hfresh : position ∉ gone := fun hm =>
      (List.nodup_append.1 hnodup).2.2 position hm position List.mem_cons_self rfl
    obtain ⟨before, after, hleft, hnext, hbefore⟩ := exists_leftover_split hentry hfresh
    have hnone : ∀ e ∈ before, e.2 ≠ wanted := by
      rintro ⟨i, piece⟩ he rfl
      obtain ⟨p, hlt, hnot, hp⟩ := hbefore _ he
      rcases hfirst 0 position rfl p hlt i piece rfl hp with hm | hm
      · exact hnot hm
      · cases hm
    have hrest := ih (gone ++ [position]) (by rwa [List.append_assoc]) ?_
    · rw [hnext, List.append_assoc] at hrest
      rw [hleft, serve_cons_of_first hnone, hrest]
      rw [indicesAt, indicesAt, List.filterMap_cons_some (by rw [hentry]; rfl)]
      rfl
    · intro slot c hc p hp i w hw he
      rcases hfirst (slot + 1) c hc p hp i w hw he with hm | hm
      · exact .inl (List.mem_append_left _ hm)
      · rw [List.take_succ_cons] at hm
        rcases List.mem_cons.1 hm with rfl | hm
        · exact .inl (List.mem_append_right _ List.mem_cons_self)
        · exact .inr hm

/-! ## Literal patterns -/

namespace Matcher

/-- What a literal pattern answers is up to the two multisets. -/
theorem testLiteral_cases (pattern candidates : List Piece) :
    (pattern.Subperm candidates ∧ ∃ chosen, testLiteral pattern candidates = .success chosen) ∨
      ¬ pattern.Subperm candidates ∧
        (candidates.Subperm pattern ∧ testLiteral pattern candidates = .pending ∨
          ¬ candidates.Subperm pattern ∧ testLiteral pattern candidates = .failure) := by
  have hmatch := isSome_firstMatch_literal pattern candidates
  have hextension : (firstExtension (pattern.map .literal) candidates).isSome = true ↔
      candidates.Subperm pattern := by
    rw [firstExtension_literal]
    exact isSome_firstMatch_literal candidates pattern
  rw [testLiteral_eq_outcome, outcome]
  by_cases hsub : pattern.Subperm candidates
  · obtain ⟨chosen, hchosen⟩ := Option.isSome_iff_exists.1 (hmatch.2 hsub)
    exact .inl ⟨hsub, chosen, by rw [hchosen]⟩
  · have hnone := Option.not_isSome_iff_eq_none.1 (mt hmatch.1 hsub)
    refine .inr ⟨hsub, ?_⟩
    rw [hnone]
    by_cases hback : candidates.Subperm pattern
    · exact .inl ⟨hback, if_pos (hextension.2 hback)⟩
    · exact .inr ⟨hback, if_neg (mt hextension.1 hback)⟩

theorem exists_testLiteral_iff (pattern candidates : List Piece) :
    (∃ chosen, testLiteral pattern candidates = .success chosen) ↔
      pattern.Subperm candidates := by
  rcases testLiteral_cases pattern candidates with ⟨hsub, h⟩ | ⟨hno, ⟨-, h⟩ | ⟨-, h⟩⟩
  · exact ⟨fun _ => hsub, fun _ => h⟩
  all_goals simp [h, hno]

variable {pattern : List Piece} {entries left : List (Nat × Piece)} {taken chosen : List Nat}

/-- The slots of a literal pattern that matches are served in turn. -/
theorem serve_of_testLiteral (h : testLiteral pattern (entries.map Prod.snd) = .success chosen) :
    serve pattern entries = some (indicesAt entries chosen, Link.leftover entries chosen) := by
  have hfits := fits_of_testLiteral _ _ _ h
  obtain ⟨pairs, hpairs, rfl⟩ := testLiteral_eq_success_iff.1 h
  have htakes : List.Forall₂ (fun wanted position => ∃ index,
      entries[position]? = some (index, wanted)) pattern (positions pattern.length pairs) := by
    have htakes := hfits.takes
    rw [slots, List.forall₂_map_left_iff] at htakes
    refine htakes.imp fun wanted position => ?_
    rintro ⟨p, hp, haccepts⟩
    obtain rfl : p = wanted := of_decide_eq_true haccepts
    rw [List.getElem?_map, Option.map_eq_some_iff] at hp
    obtain ⟨⟨index, piece⟩, hentry, rfl⟩ := hp
    exact ⟨index, hentry⟩
  have hserve := serve_leftover [] hfits.nodup htakes ?_
  · rw [show Link.leftover entries [] = entries from Link.leftover_range entries 0] at hserve
    exact hserve
  · intro slot position hposition p hp index wanted hwanted hentry
    refine .inr (firstFit_of_mergeWalk hpairs hposition hp ?_)
    exact (takes_literal _ _ _ _).2
      ⟨wanted, hwanted, by rw [List.getElem?_map, hentry]; rfl⟩

/-- A pattern that can be served matches. -/
theorem exists_testLiteral_of_serve (h : serve pattern entries = some (taken, left)) :
    ∃ chosen, testLiteral pattern (entries.map Prod.snd) = .success chosen ∧
      indicesAt entries chosen = taken ∧ Link.leftover entries chosen = left := by
  have hsub : pattern.Subperm (entries.map Prod.snd) :=
    (List.sublist_append_left _ _).subperm.trans (perm_of_serve h).symm.subperm
  obtain ⟨chosen, hchosen⟩ := (exists_testLiteral_iff _ _).2 hsub
  have hserve := (serve_of_testLiteral hchosen).symm.trans h
  obtain ⟨htaken, hleft⟩ := Prod.mk.inj (Option.some.inj hserve)
  exact ⟨chosen, hchosen, htaken, hleft⟩

end Matcher

/-! ## In turn -/

/-- The indices of the entries of a piece, in their order. -/
def queue (x : Piece) (entries : List (Nat × Piece)) : List Nat :=
  (entries.filter fun e => e.2 = x).map Prod.fst

/-- The first entry of a piece heads its queue, and taking it leaves the other queues alone. -/
theorem queue_of_first {wanted : Piece} {before : List (Nat × Piece)}
    (hbefore : ∀ e ∈ before, e.2 ≠ wanted) (after : List (Nat × Piece)) (index : Nat) (x : Piece) :
    queue x (before ++ (index, wanted) :: after) =
      if wanted = x then index :: queue x (before ++ after) else queue x (before ++ after) := by
  simp only [queue, List.filter_append, List.filter_cons]
  by_cases h : wanted = x
  · have hnone : before.filter (fun e => decide (e.2 = x)) = [] :=
      List.filter_eq_nil_iff.2 fun e he => by simpa using h ▸ hbefore e he
    simp [h, hnone]
  · simp [h]

theorem idxsOf_cons (x wanted : Piece) (rest : List Piece) :
    (wanted :: rest).idxsOf x =
      if wanted = x then 0 :: (rest.idxsOf x).map (· + 1) else (rest.idxsOf x).map (· + 1) := by
  simp only [List.idxsOf, List.findIdxs_cons, beq_iff_eq]
  rw [List.findIdxs_start]

/-- The slot that asks for a piece the k-th time is served the k-th of its entries. -/
theorem getElem?_of_serve {pattern : List Piece} {entries left : List (Nat × Piece)}
    {taken : List Nat} (h : serve pattern entries = some (taken, left)) (x : Piece) (k slot : Nat)
    (hslot : (pattern.idxsOf x)[k]? = some slot) :
    ∃ index, (queue x entries)[k]? = some index ∧ taken[slot]? = some index := by
  induction pattern generalizing entries taken k slot with
  | nil => cases hslot
  | cons wanted rest ih =>
    obtain ⟨before, index, after, more, rfl, hbefore, hmore, rfl⟩ := serve_cons_eq_some_iff.1 h
    rw [idxsOf_cons] at hslot
    rw [queue_of_first hbefore]
    by_cases hx : wanted = x
    · rw [if_pos hx] at hslot ⊢
      cases k with
      | zero =>
        cases hslot
        exact ⟨index, rfl, rfl⟩
      | succ k =>
        rw [List.getElem?_cons_succ, List.getElem?_map, Option.map_eq_some_iff] at hslot
        obtain ⟨slot', hslot', rfl⟩ := hslot
        exact ih hmore k slot' hslot'
    · rw [if_neg hx, List.getElem?_map, Option.map_eq_some_iff] at hslot
      rw [if_neg hx]
      obtain ⟨slot', hslot', rfl⟩ := hslot
      exact ih hmore k slot' hslot'

/-- The candidates themselves, with their positions. -/
theorem queue_zipIdx (x : Piece) (candidates : List Piece) :
    queue x (candidates.zipIdx.map Prod.swap) = candidates.idxsOf x := by
  have hfrom : ∀ start, queue x ((candidates.zipIdx start).map Prod.swap) =
      candidates.idxsOf x start := by
    induction candidates with
    | nil => exact fun start => rfl
    | cons p rest ih =>
      intro start
      have hrest := ih (start + 1)
      simp only [queue, List.idxsOf] at hrest ⊢
      rw [List.zipIdx_cons, List.map_cons, List.filter_cons, List.findIdxs_cons, ← hrest]
      by_cases h : p = x <;> simp [h]
  exact hfrom 0

/-! ## What a literal pattern decides -/

/-- The slots of a pattern have candidates in turn: distinct ones, each equal to the piece of its
slot, and the slot that asks for a piece the k-th time has the k-th of the candidates equal to it.
-/
structure InTurn (pattern candidates : List Piece) (chosen : List Nat) : Prop where
  length_eq : chosen.length = pattern.length
  nodup : chosen.Nodup
  equal : ∀ slot position : Nat, chosen[slot]? = some position →
    candidates[position]? = pattern[slot]?
  kth : ∀ (x : Piece) (k slot : Nat), (pattern.idxsOf x)[k]? = some slot →
    ∃ position, (candidates.idxsOf x)[k]? = some position ∧ chosen[slot]? = some position

theorem Matcher.inTurn_of_testLiteral {pattern candidates : List Piece} {chosen : List Nat}
    (h : testLiteral pattern candidates = .success chosen) : InTurn pattern candidates chosen := by
  have hfits := fits_of_testLiteral _ _ _ h
  have htakes := hfits.takes
  rw [slots, List.forall₂_map_left_iff] at htakes
  have hequal : List.Forall₂ (fun wanted position => candidates[position]? = some wanted)
      pattern chosen := by
    refine htakes.imp fun wanted position => ?_
    rintro ⟨p, hp, haccepts⟩
    rw [hp, of_decide_eq_true haccepts]
  refine ⟨hequal.length_eq.symm, hfits.nodup, ?_, ?_⟩
  · intro slot position hposition
    obtain ⟨hslot, rfl⟩ := List.getElem?_eq_some_iff.1 hposition
    have hlt : slot < pattern.length := hequal.length_eq ▸ hslot
    rw [List.getElem?_eq_getElem hlt]
    exact hequal.get hlt hslot
  · intro x k slot hslot
    rw [← Chain.map_snd_zipIdx candidates] at h
    have hserve := serve_of_testLiteral h
    rw [Chain.indicesAt_zipIdx ((fits_iff _ _ _).1 hfits).1.fresh.lt] at hserve
    rw [← queue_zipIdx]
    exact getElem?_of_serve hserve x k slot hslot

/-- **A literal pattern decides how two multisets compare.**  For every pattern of pieces and every
candidates the test succeeds exactly if the pattern is contained in the candidates, is pending
exactly if the candidates are strictly contained in the pattern, and fails else; the scope is left
alone.  When it succeeds, slots and candidates are paired in turn: of the slots that ask for a piece
the k-th one, as they are written, has the k-th candidate equal to that piece, as they were
selected. -/
theorem literal_decides_inclusion (pattern candidates : List Piece) (s : Scope) :
    ∃ answer, (Matcher.literal pattern).test candidates s = (answer, s) ∧
      (answer.status = .success ↔ (pattern : Multiset Piece) ≤ candidates) ∧
      (answer.status = .pending ↔ (candidates : Multiset Piece) < pattern) ∧
      (answer.status = .failure ↔ ¬ (pattern : Multiset Piece) ≤ candidates ∧
        ¬ (candidates : Multiset Piece) < pattern) ∧
      ∀ chosen, answer = .success chosen → InTurn pattern candidates chosen := by
  refine ⟨Matcher.testLiteral pattern candidates, rfl, ?_, ?_, ?_,
    fun chosen h => Matcher.inTurn_of_testLiteral h⟩
  all_goals
    simp only [lt_iff_le_not_ge, Multiset.coe_le]
    rcases Matcher.testLiteral_cases pattern candidates with
      ⟨hsub, chosen, h⟩ | ⟨hno, ⟨hback, h⟩ | ⟨hback, h⟩⟩ <;> simp [*, Outcome.status]

end HexRules
