import HexRules.Proofs.ChainSearched
import HexRules.Proofs.Pairing
import HexRules.Proofs.RuleOrder

/-!
# Rules of one link

A rule of one link succeeds only when its slots take all candidates.  So what it answers short of
that is up to its pattern: it is pending exactly when there are fewer candidates than slots and each
of them can have a slot of its own.  A rule that has no guard then succeeds on the candidates and
some more.

    the test is pending ↔ candidates.length < slots.length ∧ Extends slots candidates
                                                                         (test_eq_pending_iff)
    the test succeeds → candidates.length = slots.length ∧ Matches slots candidates
                                                                         (matches_of_success)
    the test is valid → Extends slots candidates                         (extends_of_isValid)
-/

namespace HexRules

namespace Matcher

variable {m : Matcher} {chosen : List Nat}

theorem fits_of_outcome {candidates : List Piece}
    (h : outcome m.slots candidates = .success chosen) : m.Fits candidates chosen := by
  have hfirst : firstMatch m.slots candidates = some chosen := by
    rw [outcome] at h
    split at h
    · rename_i found hfound
      cases h
      exact hfound
    · split at h <;> cases h
  obtain ⟨hcompletes, hlen, -⟩ := Assignment.least_spec hfirst
  exact (fits_iff m candidates chosen).2 ⟨hcompletes, hlen⟩

/-- Every slot takes one candidate. -/
theorem Fits.length_leftover {indexed : List (Nat × Piece)}
    (h : m.Fits (indexed.map Prod.snd) chosen) :
    (Link.leftover indexed chosen).length + m.slots.length = indexed.length := by
  have hall := (Link.leftover_perm indexed chosen h.nodup).length_eq
  have htaken := h.accepts.length_eq
  rw [Chain.piecesAt_eq, List.length_map, Chain.entriesAt] at htaken
  rw [List.length_append] at hall
  omega

end Matcher

namespace Chain

open Matcher

variable {c : Chain} {ctx : Context} {candidates : List Piece} {s : Scope}

/-- What a rule of one link answers, by the outcome of its pattern. -/
theorem test_single (hnext : c.next = []) (ctx : Context) (candidates : List Piece) (s : Scope) :
    (outcome c.first.matcher.slots candidates = .pending ∧
        (c.test ctx candidates s).1 = .ok .pending) ∨
      (outcome c.first.matcher.slots candidates = .failure ∧
        (c.test ctx candidates s).1 = .ok .failure) ∨
      ∃ chosen, outcome c.first.matcher.slots candidates = .success chosen ∧
        (c.test ctx candidates s).1 ≠ .ok .pending ∧
        (c.first.guard = none → candidates.length = c.first.matcher.slots.length →
          (c.test ctx candidates s).1 ≠ .ok .failure) := by
  have htest : (c.test ctx candidates s).1 = (c.matchAll ctx candidates s.push).1 := rfl
  have hlinks : c.links = [c.first] := by rw [links, hnext]
  have hpieces := map_snd_zipIdx candidates
  rw [htest, matchAll, hlinks, walk, Matcher.test_eq_outcome, hpieces]
  cases hoc : outcome c.first.matcher.slots candidates with
  | pending => exact .inl ⟨rfl, rfl⟩
  | failure => exact .inr (.inl ⟨rfl, rfl⟩)
  | success chosen =>
    refine .inr (.inr ⟨chosen, rfl, ?_⟩)
    simp only [walk]
    cases hg : c.first.guardHolds ctx
        (c.first.matcher.bound (piecesAt candidates chosen) s.push.push) with
    | error e => simp
    | ok holds =>
      cases holds with
      | false =>
        refine ⟨by simp, fun hguard => ?_⟩
        rw [Link.guardHolds, hguard] at hg
        cases hg
      | true =>
        cases hleft : Link.leftover (candidates.zipIdx.map Prod.swap) chosen with
        | nil =>
          simp only [List.isEmpty_nil, if_true]
          cases replacements ctx _ _ <;> simp
        -- with a candidate for every slot nothing is left over
        | cons entry rest =>
          refine ⟨by simp, fun _ hlen => ?_⟩
          have hfits := fits_of_outcome hoc
          rw [← hpieces] at hfits
          have hcount := hfits.length_leftover
          rw [hleft, List.length_cons, List.length_map, List.length_zipIdx] at hcount
          omega

/-- The guard and the results have no say in whether a rule of one link is pending. -/
theorem test_eq_pending_iff (hnext : c.next = []) :
    (c.test ctx candidates s).1 = .ok .pending ↔
      candidates.length < c.first.matcher.slots.length ∧
        Extends c.first.matcher.slots candidates := by
  rw [← pending_iff_extends]
  rcases test_single hnext ctx candidates s with ⟨ho, ht⟩ | ⟨ho, ht⟩ | ⟨chosen, ho, ht, -⟩ <;>
    simp [ho, ht]

/-- A rule of one link that succeeds has a slot for every candidate and a candidate for every slot. -/
theorem matches_of_success (hnext : c.next = []) {rs : List Replacement}
    (h : (c.test ctx candidates s).1 = .ok (.success rs)) :
    candidates.length = c.first.matcher.slots.length ∧
      Matches c.first.matcher.slots candidates := by
  obtain ⟨order, pieces, hpaired⟩ := paired_of_test h
  have hslots : c.slots.length = c.first.matcher.slots.length := by
    rw [slots, links, hnext, List.flatMap_singleton, ← c.first.map_predicate_slots,
      List.length_map]
  refine ⟨?_, ?_⟩
  · rw [← hpaired.length_candidates, ← hpaired.length_eq, hslots]
  · rw [← success_iff_matches]
    rcases test_single hnext ctx candidates s with ⟨-, ht⟩ | ⟨-, ht⟩ | ⟨chosen, ho, -⟩
    · cases ht.symm.trans h
    · cases ht.symm.trans h
    · exact ⟨chosen, ho⟩

/-- A rule of one link that is valid has a slot for every candidate. -/
theorem extends_of_isValid (hnext : c.next = []) {o : Outcome (List Replacement)}
    (h : (c.test ctx candidates s).1 = .ok o) (ho : o.isValid = true) :
    candidates.length ≤ c.first.matcher.slots.length ∧
      Extends c.first.matcher.slots candidates := by
  cases o with
  | success rs =>
    obtain ⟨hlen, hmatches⟩ := matches_of_success hnext h
    exact ⟨Nat.le_of_eq hlen, hmatches.flip (Nat.le_of_eq hlen)⟩
  | pending =>
    obtain ⟨hlt, hextends⟩ := (test_eq_pending_iff hnext).1 h
    exact ⟨Nat.le_of_lt hlt, hextends⟩
  | failure => cases ho

/-- A rule that has no guard and whose results raise nothing succeeds when its slots and the
candidates can be paired. -/
theorem exists_success (hnext : c.next = []) (hguard : c.first.guard = none)
    (hlen : candidates.length = c.first.matcher.slots.length)
    (hmatches : Matches c.first.matcher.slots candidates)
    (hraises : ∀ e, (c.test ctx candidates s).1 ≠ .error e) :
    ∃ rs, (c.test ctx candidates s).1 = .ok (.success rs) := by
  obtain ⟨chosen, hchosen⟩ := (success_iff_matches _ _).2 hmatches
  have hanswer : (c.test ctx candidates s).1 ≠ .ok .pending ∧
      (c.test ctx candidates s).1 ≠ .ok .failure := by
    rcases test_single hnext ctx candidates s with ⟨ho, -⟩ | ⟨ho, -⟩ | ⟨-, -, hpending, hfailure⟩
    · cases ho.symm.trans hchosen
    · cases ho.symm.trans hchosen
    · exact ⟨hpending, hfailure hguard hlen⟩
  rcases c.test_eq_cases ctx candidates s with ⟨e, hr⟩ | ⟨rs, hr⟩ | hr | hr
  · exact absurd (congrArg Prod.fst hr) (hraises e)
  · exact ⟨rs, congrArg Prod.fst hr⟩
  · exact absurd (congrArg Prod.fst hr) hanswer.1
  · exact absurd (congrArg Prod.fst hr) hanswer.2

/-! ## Rules that raise nothing -/

theorem walk_ne_error {links : List Link}
    (hguards : ∀ l ∈ links, ∀ u, ∃ holds, l.guardHolds ctx u = .ok holds)
    (indexed : List (Nat × Piece)) (s : Scope) (e : EvalError) :
    (walk ctx links indexed s).1 ≠ .error e := by
  induction links generalizing indexed s with
  | nil => simp [walk]
  | cons l rest ih =>
    rcases walk_cons_cases ctx l rest indexed s with h | h | ⟨chosen, -, h⟩
    · simp [h]
    · simp [h]
    · obtain ⟨holds, hholds⟩ := hguards l List.mem_cons_self (linkScope l indexed chosen s)
      have hrest := ih (fun l' hl' => hguards l' (List.mem_cons_of_mem l hl'))
        (Link.leftover indexed chosen) (linkScope l indexed chosen s)
      rw [h, hholds]
      cases holds with
      | false => simp
      | true =>
        simp only
        generalize walk ctx rest (Link.leftover indexed chosen) _ = r at hrest
        obtain ⟨answer, t⟩ := r
        cases answer with
        | error e' => exact hrest
        | ok o => cases o <;> simp [withLink]

theorem exists_replacements {matched : List Matched}
    (h : ∀ m ∈ matched, ∀ e ∈ m.link.results, ∃ p, e.replacement ctx s = .ok p) :
    ∃ rs, replacements ctx s matched = .ok rs := by
  have hparts : ∀ m ∈ matched.reverse, ∃ part, linkReplacements ctx s m = .ok part := by
    intro m hm
    refine Succeeds.mapM_iff.2 fun slot hslot => ?_
    obtain ⟨p, hp⟩ := h m (List.mem_reverse.1 hm) slot.2 (List.of_mem_zip hslot).2
    exact ⟨(slot.1, p), by rw [hp]; rfl⟩
  obtain ⟨parts, hparts⟩ := Succeeds.mapM_iff.2 hparts
  exact ⟨parts.flatten, by rw [replacements, hparts]; rfl⟩

/-- Only guards and results raise errors. -/
theorem test_ne_error (hguards : ∀ l ∈ c.links, ∀ u, ∃ holds, l.guardHolds ctx u = .ok holds)
    (hresults : ∀ l ∈ c.links, ∀ e ∈ l.results, ∀ u, ∃ p, e.replacement ctx u = .ok p)
    (candidates : List Piece) (s : Scope) (e : EvalError) :
    (c.test ctx candidates s).1 ≠ .error e := by
  have htest : (c.test ctx candidates s).1 = (c.matchAll ctx candidates s.push).1 := rfl
  rw [htest, matchAll]
  have hne := walk_ne_error hguards (candidates.zipIdx.map Prod.swap) s.push
  cases hw : walk ctx c.links (candidates.zipIdx.map Prod.swap) s.push with
  | mk answer u =>
    rw [hw] at hne
    cases answer with
    | error e' => exact absurd rfl (hne e')
    | ok o =>
      cases o with
      | pending => simp
      | failure => simp
      | success matched =>
        have hlinks := (passes_of_walk hw).map_link
        obtain ⟨rs, hrs⟩ : ∃ rs, replacements ctx u matched = .ok rs := by
          refine exists_replacements fun m hm e' he' => hresults m.link ?_ e' he' u
          rw [← hlinks]
          exact List.mem_map_of_mem hm
        simp [hrs]

end Chain

/-- **Pending means that more pieces can complete the match.**  Take a rule of one link that has no
guard, whose results raise nothing, and every slot of which accepts some known piece.  It is pending
on candidates exactly when it succeeds on them and some more known pieces, one at least. -/
theorem pending_iff_completable (c : Chain) (ctx : Context) (s : Scope) (known : Piece → Prop)
    (hnext : c.next = []) (hguard : c.first.guard = none)
    (hresults : ∀ candidates e, (c.test ctx candidates s).1 ≠ .error e)
    (haccepts : ∀ q ∈ c.first.matcher.slots, ∃ p, known p ∧ (q.test p s).1 = true)
    (candidates : List Piece) :
    (c.test ctx candidates s).1 = .ok .pending ↔
      ∃ more, more ≠ [] ∧ (∀ p ∈ more, known p) ∧
        ∃ rs, (c.test ctx (candidates ++ more) s).1 = .ok (.success rs) := by
  have hknown : ∀ q ∈ c.first.matcher.slots, ∃ p, known p ∧ q.accepts p = true := by
    intro q hq
    obtain ⟨p, hp, htest⟩ := haccepts q hq
    rw [Predicate.test_eq] at htest
    exact ⟨p, hp, htest⟩
  rw [Chain.test_eq_pending_iff hnext]
  constructor
  · rintro ⟨hlt, hextends⟩
    obtain ⟨more, hmore, hlen, hmatches⟩ := hextends.exists_append hknown
    have hne : more ≠ [] := by
      rintro rfl
      rw [List.length_nil] at hlen
      omega
    have hall : (candidates ++ more).length = c.first.matcher.slots.length := by
      rw [List.length_append]
      omega
    exact ⟨more, hne, hmore,
      Chain.exists_success hnext hguard hall hmatches (hresults (candidates ++ more))⟩
  · rintro ⟨more, hne, -, rs, hrs⟩
    obtain ⟨hlen, hextends⟩ := Chain.extends_of_isValid hnext hrs rfl
    have hpos := List.length_pos_iff.2 hne
    rw [List.length_append] at hlen
    exact ⟨by omega, hextends.of_sublist (List.sublist_append_left candidates more)⟩

namespace Relay

/-- The rule that clears the pieces of its slots. -/
def clearing (predicates : List Predicate) : Chain :=
  ⟨⟨.search predicates, none, List.replicate predicates.length (.const .empty),
    List.length_replicate⟩, []⟩

theorem clearing_ne_error (predicates : List Predicate) (ctx : Context) (candidates : List Piece)
    (s : Scope) (e : EvalError) :
    ((clearing predicates).test ctx candidates s).1 ≠ .error e := by
  refine Chain.test_ne_error ?_ ?_ candidates s e
  · intro l hl u
    rw [List.mem_singleton.1 hl]
    exact ⟨true, rfl⟩
  · intro l hl e he u
    rw [List.mem_singleton.1 hl] at he
    rw [List.eq_of_mem_replicate he]
    exact ⟨none, rfl⟩

/-- The first slot accepts what the second one accepts, and more. -/
def pair : List Predicate := [.member [red, blue] none, .literal red]

theorem test_pair_red : ((clearing pair).test context [red] Scope.empty).1 = .ok .pending := by
  simp only [Chain.test, Scope.frame, Chain.matchAll, Chain.walk, Chain.links, clearing, pair,
    Matcher.test, Matcher.testSearch, Matcher.searchSlots, Matcher.searchCandidates,
    Assignment.assign_eq_place]
  rfl

/-- One red piece can go in either slot; what is left for the other completes the match. -/
theorem clearing_completable :
    (∀ q ∈ (clearing pair).first.matcher.slots,
      ∃ p, p ∈ [red, blue] ∧ (q.test p Scope.empty).1 = true) ∧
      ((clearing pair).test context [red] Scope.empty).1 = .ok .pending ∧
      ∃ more, more ≠ [] ∧ (∀ p ∈ more, p ∈ [red, blue]) ∧
        ∃ rs, ((clearing pair).test context ([red] ++ more) Scope.empty).1 =
          .ok (.success rs) := by
  have haccepts : ∀ q ∈ (clearing pair).first.matcher.slots,
      ∃ p, p ∈ [red, blue] ∧ (q.test p Scope.empty).1 = true := by
    intro q hq
    refine ⟨red, List.mem_cons_self, ?_⟩
    rcases List.mem_pair.1 hq with rfl | rfl <;> rfl
  have hresults := fun candidates => clearing_ne_error pair context candidates Scope.empty
  exact ⟨haccepts, test_pair_red,
    (pending_iff_completable (clearing pair) context Scope.empty (· ∈ [red, blue]) rfl rfl
      hresults haccepts [red]).1 test_pair_red⟩

end Relay

end HexRules
