import HexRules.Proofs.SingleLink

/-!
# Reactions

What a rule of one link does is up to the pieces that its slots take.  Its guard may refuse them; if
it does not, the results say what takes the place of each.  A reaction lists the pieces taken, slot
by slot, each with what takes its place.

    a rule of one link raises an error → its link raises it for pieces that the slots accept
                                                                         (exists_answer_of_error)
    a rule of one link succeeds → its link has a reaction that takes the candidates, in some order,
      and gives them their replacements                                  (exists_reacts_of_success)
    a link has a reaction → the rule succeeds on the pieces taken, in the order of the slots
                                                                         (exists_success_of_reacts)
-/

namespace HexRules

/-- Pieces that are taken, each with what takes its place. -/
abbrev Reaction := List (Piece × Option Piece)

namespace Reaction

def taken (r : Reaction) : List Piece := r.map Prod.fst

/-- The pieces that are put in the place of those taken. -/
def placed (r : Reaction) : List Piece := r.filterMap Prod.snd

theorem zip_taken (r : Reaction) : r.taken.zip (r.map Prod.snd) = r :=
  (List.zip_of_prod rfl rfl).symm

/-- Pieces with their replacements, in any order. -/
theorem perm_of_zip {r : Reaction} {pieces : List Piece} {becomes : List (Option Piece)}
    (hlen : pieces.length = becomes.length) (h : (pieces.zip becomes).Perm r) :
    pieces.Perm r.taken ∧ (becomes.filterMap id).Perm r.placed := by
  have htaken := h.map Prod.fst
  have hplaced := h.filterMap Prod.snd
  rw [List.map_fst_zip (Nat.le_of_eq hlen)] at htaken
  rw [← Function.id_comp Prod.snd, ← List.filterMap_map,
    List.map_snd_zip (Nat.le_of_eq hlen.symm)] at hplaced
  exact ⟨htaken, hplaced⟩

end Reaction

namespace Link

open Matcher

/-- The scope in which guard and results are evaluated when the slots have taken `pieces`. -/
def takenScope (l : Link) (s : Scope) (pieces : List Piece) : Scope :=
  s.overlay (l.matcher.binds pieces)

/-- What a link answers when its slots have taken `pieces`: a reaction, unless its guard refuses. -/
def answer (l : Link) (ctx : Context) (s : Scope) (pieces : List Piece) :
    Except EvalError (Option Reaction) := do
  let holds ← l.guardHolds ctx (l.takenScope s pieces)
  if holds then do
    let becomes ← l.results.mapM (Expression.replacement ctx (l.takenScope s pieces))
    .ok (some (pieces.zip becomes))
  else .ok none

/-- The slots accept the pieces of a reaction, and the link lets them react. -/
structure Reacts (l : Link) (ctx : Context) (s : Scope) (r : Reaction) : Prop where
  accepts : List.Forall₂ (fun q p => q.accepts p = true) l.matcher.slots r.taken
  answer_eq : l.answer ctx s r.taken = .ok (some r)

variable {l : Link} {ctx : Context} {s : Scope}

/-- A reaction takes the pieces that were asked about, as there is a result for each of them. -/
theorem taken_of_answer {pieces : List Piece} {r : Reaction}
    (haccepts : List.Forall₂ (fun q p => q.accepts p = true) l.matcher.slots pieces)
    (h : l.answer ctx s pieces = .ok (some r)) : r.taken = pieces := by
  obtain ⟨holds, -, h⟩ := exists_of_bind_ok h
  cases holds with
  | false => cases h
  | true =>
    obtain ⟨becomes, hbecomes, h⟩ := exists_of_bind_ok h
    cases h
    have hlen : pieces.length = becomes.length := by
      rw [← haccepts.length_eq, ← (forall₂_of_mapM _ _ _ hbecomes).length_eq, l.length_results,
        Matcher.length_slots]
    exact List.map_fst_zip (Nat.le_of_eq hlen)

theorem reacts_of_answer {pieces : List Piece} {r : Reaction}
    (haccepts : List.Forall₂ (fun q p => q.accepts p = true) l.matcher.slots pieces)
    (h : l.answer ctx s pieces = .ok (some r)) : l.Reacts ctx s r ∧ r.taken = pieces := by
  have htaken := taken_of_answer haccepts h
  exact ⟨⟨htaken.symm ▸ haccepts, htaken.symm ▸ h⟩, htaken⟩

end Link

/-! ## Slots that take the candidates as they come -/

namespace Matcher

open Assignment

/-- Slots that accept the first candidates in their order take them in their order: when a slot
chooses, the candidates before its own are gone. -/
theorem outcome_append_of_forall₂ {slots : List Predicate} {pieces : List Piece}
    (h : List.Forall₂ (fun q p => q.accepts p = true) slots pieces) (left : List Piece) :
    outcome slots (pieces ++ left) = .success (List.range pieces.length) := by
  have hlen := h.length_eq
  have hall : List.Forall₂
      (fun q j => ∃ p, (pieces ++ left)[j]? = some p ∧ q.accepts p = true) slots
      (List.range pieces.length) := by
    refine List.forall₂_iff_get.2 ⟨by rw [List.length_range, hlen], fun i hi hi' => ?_⟩
    rw [List.get_eq_getElem, List.get_eq_getElem, List.getElem_range]
    have hlt : i < pieces.length := hlen ▸ hi
    refine ⟨pieces[i], ?_, h.get hi hlt⟩
    rw [List.getElem?_append_left hlt, List.getElem?_eq_getElem hlt]
  obtain ⟨hcompletes, hcount⟩ := (completes_iff_forall₂ (takes_iff slots (pieces ++ left)) _).2
    ⟨List.nodup_range, hall⟩
  have hfirst : firstMatch slots (pieces ++ left) = some (List.range pieces.length) := by
    refine least_eq_some_of_firstFit hcompletes hcount fun i column hi c hc _ => ?_
    obtain ⟨hi', rfl⟩ := List.getElem?_eq_some_iff.1 hi
    rw [List.getElem_range] at hc
    rw [List.length_range] at hi'
    rw [List.take_range, List.mem_range]
    omega
  rw [outcome, hfirst]

/-- With a slot for every candidate all candidates are taken. -/
theorem Fits.perm_range {m : Matcher} {candidates : List Piece} {chosen : List Nat}
    (h : m.Fits candidates chosen) (hlen : candidates.length = m.slots.length) :
    chosen.Perm (List.range candidates.length) := by
  have hfresh := ((fits_iff m candidates chosen).1 h).1.fresh
  have hsub : chosen ⊆ List.range candidates.length := fun index hi =>
    List.mem_range.2 (hfresh.lt index hi)
  refine (List.subperm_of_subset hfresh.nodup hsub).perm_of_length_le ?_
  rw [List.length_range, hlen, h.takes.length_eq]

theorem piecesAt_append_range (pieces left : List Piece) :
    piecesAt (pieces ++ left) (List.range pieces.length) = pieces := by
  induction pieces with
  | nil => rfl
  | cons p rest ih =>
    have hhead : (p :: rest ++ left)[0]? = some p := rfl
    rw [piecesAt, List.length_cons, List.range_succ_eq_map, List.filterMap_cons_some hhead,
      List.filterMap_map]
    exact congrArg (p :: ·) ih

theorem piecesAt_range (candidates : List Piece) :
    piecesAt candidates (List.range candidates.length) = candidates := by
  have hall := piecesAt_append_range candidates []
  rwa [List.append_nil] at hall

end Matcher

/-! ## Replacements beside the candidates -/

/-- Pieces at some positions, each beside what is listed with its position. -/
theorem Matcher.zip_piecesAt {candidates : List Piece} {order : List Nat}
    (h : ∀ index ∈ order, index < candidates.length) (becomes : List (Option Piece)) :
    (piecesAt candidates order).zip becomes =
      (order.zip becomes).filterMap fun e => (candidates[e.1]?).map fun p => (p, e.2) := by
  induction order generalizing becomes with
  | nil => rfl
  | cons index order ih =>
    cases becomes with
    | nil => rw [List.zip_nil_right, List.zip_nil_right, List.filterMap_nil]
    | cons q becomes =>
      have hget := List.getElem?_eq_getElem (h index List.mem_cons_self)
      have hrest := ih (fun i hi => h i (List.mem_cons_of_mem _ hi)) becomes
      rw [piecesAt, List.filterMap_cons_some hget, List.zip_cons_cons, List.zip_cons_cons,
        List.filterMap_cons_some (by rw [hget]; rfl)]
      exact congrArg ((candidates.get ⟨index, h index List.mem_cons_self⟩, q) :: ·) hrest

/-- A list of replacements has for every index the one that is listed in order. -/
theorem RuleSet.perm_zip_inOrder {count : Nat} {rs : List Replacement}
    (h : (rs.map Prod.fst).Perm (List.range count)) :
    ((List.range count).zip (inOrder count rs)).Perm rs := by
  have hnodup : (rs.map Prod.fst).Nodup := h.nodup_iff.2 List.nodup_range
  have hself :
      (rs.map Prod.fst).map (fun index => (index, (findEntry index rs).getD none)) = rs := by
    rw [List.map_map, List.map_congr_left (g := id), List.map_id]
    rintro ⟨index, p⟩ hmem
    simp [(findEntry_eq_some_iff index p rs hnodup).2 hmem]
  rw [inOrder, ← List.map_prod_left_eq_zip]
  exact (h.symm.map _).trans (List.Perm.of_eq hself)

/-- The candidates beside their replacements are the pieces taken beside what takes their place. -/
theorem RuleSet.perm_zip_candidates {candidates : List Piece} {order : List Nat}
    {becomes : List (Option Piece)} (hperm : order.Perm (List.range candidates.length))
    (hlen : order.length = becomes.length) :
    (candidates.zip (inOrder candidates.length (order.zip becomes))).Perm
      ((Matcher.piecesAt candidates order).zip becomes) := by
  have hkeys : ((order.zip becomes).map Prod.fst).Perm (List.range candidates.length) := by
    rw [List.map_fst_zip (Nat.le_of_eq hlen)]
    exact hperm
  have hrange : ∀ index ∈ List.range candidates.length, index < candidates.length :=
    fun index hi => List.mem_range.1 hi
  have hall := Matcher.zip_piecesAt hrange (inOrder candidates.length (order.zip becomes))
  rw [Matcher.piecesAt_range] at hall
  rw [hall, Matcher.zip_piecesAt fun index hi => hrange index (hperm.mem_iff.1 hi)]
  exact (perm_zip_inOrder hkeys).filterMap _

/-! ## Tests of rules of one link -/

namespace Chain

open Matcher

variable {c : Chain} {ctx : Context} {candidates : List Piece} {s : Scope} {chosen : List Nat}

/-- Every result stands beside the index of the candidate that its slot took. -/
theorem linkReplacements_eq {m : Matched} {u : Scope}
    (hlen : m.indices.length = m.link.results.length) :
    linkReplacements ctx u m =
      (m.link.results.mapM (Expression.replacement ctx u)).map (m.indices.zip ·) := by
  unfold linkReplacements
  generalize m.link.results = es at hlen
  generalize m.indices = indices at hlen
  induction indices generalizing es with
  | nil =>
    cases es with
    | nil => rfl
    | cons e es => cases hlen
  | cons index indices ih =>
    cases es with
    | nil => cases hlen
    | cons e es =>
      rw [List.zip_cons_cons, List.mapM_cons, List.mapM_cons, ih es (Nat.succ.inj hlen)]
      cases e.replacement ctx u with
      | error e' => rfl
      | ok p => cases es.mapM (Expression.replacement ctx u) <;> rfl

theorem replacements_singleton (m : Matched) (u : Scope) :
    replacements ctx u [m] = linkReplacements ctx u m := by
  rw [replacements, List.reverse_singleton, List.mapM_cons, List.mapM_nil]
  cases linkReplacements ctx u m with
  | error e => rfl
  | ok rs => exact congrArg Except.ok (List.append_nil rs)

/-- A guard sees in the scope of a match what it would see with the bindings in one frame. -/
theorem agrees_takenScope (l : Link) (pieces : List Piece) (s : Scope) :
    (l.matcher.bound pieces s.push.push).Agrees (l.takenScope s pieces) := by
  intro name
  rw [get?_bound, Link.takenScope, Scope.get?_overlay]
  rfl

theorem linkReplacements_taken {l : Link} (hfits : l.matcher.Fits candidates chosen) (ctx : Context)
    (s : Scope) :
    linkReplacements ctx (l.matcher.bound (piecesAt candidates chosen) s.push.push) ⟨l, chosen⟩ =
      (l.results.mapM (Expression.replacement ctx
        (l.takenScope s (piecesAt candidates chosen)))).map (chosen.zip ·) := by
  have hsize : chosen.length = l.results.length := by
    rw [← hfits.takes.length_eq, l.length_results, Matcher.length_slots]
  rw [linkReplacements_congr ctx (agrees_takenScope l _ s) ⟨rfl, rfl⟩, linkReplacements_eq hsize]

/-- A reaction gives every chosen candidate what takes its place; without one the rule fails. -/
def reactionOutcome (chosen : List Nat) : Option Reaction → Outcome (List Replacement)
  | some r => .success (chosen.zip (r.map Prod.snd))
  | none => .failure

/-- When the slots have taken candidates, guard and results see what the slots bound; candidates
that are left over make the rule fail, whatever its guard says. -/
theorem test_of_outcome (hnext : c.next = [])
    (hoc : outcome c.first.matcher.slots candidates = .success chosen) :
    (c.test ctx candidates s).1 =
      if candidates.length = c.first.matcher.slots.length then
        (c.first.answer ctx s (piecesAt candidates chosen)).map (reactionOutcome chosen)
      else
        (c.first.guardHolds ctx (c.first.takenScope s (piecesAt candidates chosen))).map
          fun _ => .failure := by
  have htest : (c.test ctx candidates s).1 = (c.matchAll ctx candidates s.push).1 := rfl
  have hlinks : c.links = [c.first] := by rw [links, hnext]
  have hpieces := map_snd_zipIdx candidates
  have hfits := fits_of_outcome hoc
  have hcount := (hpieces.symm ▸ hfits :
    c.first.matcher.Fits ((candidates.zipIdx.map Prod.swap).map Prod.snd) chosen).length_leftover
  rw [List.length_map, List.length_zipIdx] at hcount
  have hchosen : indicesAt (candidates.zipIdx.map Prod.swap) chosen = chosen :=
    indicesAt_zipIdx ((fits_iff _ _ _).1 hfits).1.fresh.lt
  have hguard : c.first.guardHolds ctx
      (c.first.matcher.bound (piecesAt candidates chosen) s.push.push) =
        c.first.guardHolds ctx (c.first.takenScope s (piecesAt candidates chosen)) :=
    (agrees_takenScope c.first _ s).guardHolds ⟨rfl, rfl, rfl⟩ ctx
  rw [htest, matchAll, hlinks, walk, Matcher.test_eq_outcome, hpieces, hoc]
  simp only [hguard, Link.answer]
  cases c.first.guardHolds ctx (c.first.takenScope s (piecesAt candidates chosen)) with
  | error e => exact (ite_self (Except.error e)).symm
  | ok holds =>
    cases holds with
    | false => exact (ite_self (Except.ok Outcome.failure)).symm
    | true =>
      cases hleft : Link.leftover (candidates.zipIdx.map Prod.swap) chosen with
      | cons entry rest =>
        rw [hleft, List.length_cons] at hcount
        rw [if_neg (by omega)]
        rfl
      | nil =>
        rw [hleft, List.length_nil] at hcount
        rw [if_pos (by omega), hchosen]
        simp only [walk, List.isEmpty_nil, if_true, replacements_singleton,
          linkReplacements_taken hfits]
        cases hr : c.first.results.mapM
            (Expression.replacement ctx (c.first.takenScope s (piecesAt candidates chosen))) with
        | error e => rfl
        | ok becomes =>
          have hlen : becomes.length ≤ (piecesAt candidates chosen).length := by
            rw [← hfits.accepts.length_eq, ← (forall₂_of_mapM _ _ _ hr).length_eq,
              c.first.length_results, Matcher.length_slots]
          have hsnd := List.map_snd_zip hlen
          simp [Except.map, bind, Except.bind, reactionOutcome, hsnd]

/-- An error is raised for pieces that the slots accept. -/
theorem exists_answer_of_error (hnext : c.next = []) {e : EvalError}
    (h : (c.test ctx candidates s).1 = .error e) :
    ∃ pieces, List.Forall₂ (fun q p => q.accepts p = true) c.first.matcher.slots pieces ∧
      c.first.answer ctx s pieces = .error e := by
  rcases test_single hnext ctx candidates s with ⟨-, ht⟩ | ⟨-, ht⟩ | ⟨chosen, hoc, -⟩
  · cases ht.symm.trans h
  · cases ht.symm.trans h
  · refine ⟨piecesAt candidates chosen, (fits_of_outcome hoc).accepts, ?_⟩
    rw [test_of_outcome hnext hoc] at h
    split at h
    · cases ha : c.first.answer ctx s (piecesAt candidates chosen) with
      | error e' =>
        rw [ha] at h
        cases h
        rfl
      | ok o =>
        rw [ha] at h
        cases h
    · rw [Link.answer]
      cases hg : c.first.guardHolds ctx (c.first.takenScope s (piecesAt candidates chosen)) with
      | error e' =>
        rw [hg] at h
        cases h
        rfl
      | ok holds =>
        rw [hg] at h
        cases h

/-- The candidates, each with its replacement, are a reaction of the rule's link. -/
theorem exists_reacts_of_success (hnext : c.next = []) {rs : List Replacement}
    (h : (c.test ctx candidates s).1 = .ok (.success rs)) :
    ∃ r, c.first.Reacts ctx s r ∧
      (candidates.zip (RuleSet.inOrder candidates.length rs)).Perm r := by
  obtain ⟨hlen, hmatches⟩ := matches_of_success hnext h
  obtain ⟨chosen, hoc⟩ := (success_iff_matches _ _).2 hmatches
  have hfits := fits_of_outcome hoc
  rw [test_of_outcome hnext hoc, if_pos hlen] at h
  obtain ⟨o, ha, ho⟩ := exists_of_map_ok h
  cases o with
  | none => cases ho
  | some r =>
    cases ho
    obtain ⟨hreacts, htaken⟩ := Link.reacts_of_answer hfits.accepts ha
    have hsize : chosen.length = (r.map Prod.snd).length := by
      rw [List.length_map, ← List.length_map Prod.fst, ← Reaction.taken, htaken,
        ← hfits.accepts.length_eq, hfits.takes.length_eq]
    have hzip := RuleSet.perm_zip_candidates (hfits.perm_range hlen) hsize
    rw [← htaken, r.zip_taken] at hzip
    exact ⟨r, hreacts, hzip⟩

/-- Pieces that react, in the order of the slots, are what the rule takes. -/
theorem exists_success_of_reacts (hnext : c.next = []) {r : Reaction}
    (h : c.first.Reacts ctx s r) : ∃ rs, (c.test ctx r.taken s).1 = .ok (.success rs) := by
  have hoc := outcome_append_of_forall₂ h.accepts []
  rw [List.append_nil] at hoc
  refine ⟨(List.range r.taken.length).zip (r.map Prod.snd), ?_⟩
  rw [test_of_outcome hnext hoc, if_pos h.accepts.length_eq.symm, piecesAt_range, h.answer_eq]
  rfl

end Chain

end HexRules
