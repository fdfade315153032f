import HexRules.Proofs.GameTables
import HexRules.Proofs.StaticScope

/-!
# The order of candidates

The search of a link stops at the first candidates that fit, in their order; neither a guard that
refuses them nor a link after it makes it go on.  So the order of the candidates may decide what a
rule answers, but only by choosing among the candidates that fit: `MayEnd` says what links can end
with when each takes any candidates that fit.

    the links match with a status → they may end with it                 (mayEnd_of_walk)
    what they may end with does not depend on the order                  (MayEnd.of_perm)
    they may end with a status → in some order of the candidates they do
                                                                         (exists_order_of_mayEnd)
    a rule has one status in all orders ↔ it may end with one status only
                                                                         (settled_iff)
-/

namespace HexRules

/-! ## What a link takes -/

/-- The slots of the link accept `pieces`, and `left` is what is left of the candidates. -/
structure Link.Takes (l : Link) (candidates pieces left : List Piece) : Prop where
  split : (pieces ++ left).Perm candidates
  accepts : List.Forall₂ (fun q p => q.accepts p = true) l.matcher.slots pieces

namespace Link

variable {l : Link} {candidates candidates' pieces pieces' left left' : List Piece}

theorem takes_of_fits {indexed : List (Nat × Piece)} {chosen : List Nat}
    (h : l.matcher.Fits (indexed.map Prod.snd) chosen) :
    l.Takes (indexed.map Prod.snd) (Matcher.piecesAt (indexed.map Prod.snd) chosen)
      ((leftover indexed chosen).map Prod.snd) := by
  refine ⟨?_, h.accepts⟩
  rw [Chain.piecesAt_eq, ← List.map_append]
  exact (leftover_perm indexed chosen h.nodup).map Prod.snd

namespace Takes

theorem of_perm (h : l.Takes candidates pieces left) (hperm : candidates.Perm candidates') :
    l.Takes candidates' pieces left :=
  ⟨h.split.trans hperm, h.accepts⟩

theorem exists_success (h : l.Takes candidates pieces left) :
    ∃ chosen, Matcher.outcome l.matcher.slots candidates = .success chosen := by
  rw [Matcher.success_iff_matches]
  exact ⟨pieces, (List.sublist_append_left pieces left).subperm.trans h.split.subperm, h.accepts⟩

theorem length_left (h : l.Takes candidates pieces left)
    (h' : l.Takes candidates pieces' left') : left.length = left'.length := by
  have hlen := h.split.length_eq.trans h'.split.length_eq.symm
  rw [List.length_append, List.length_append, ← h.accepts.length_eq, ← h'.accepts.length_eq] at hlen
  omega

end Takes

end Link

/-- Whether the candidates match a pattern or extend to a match does not depend on their order. -/
theorem Matcher.status_outcome_of_perm {slots : List Predicate} {xs ys : List Piece}
    (h : xs.Perm ys) : (outcome slots xs).status = (outcome slots ys).status := by
  have hmatches : Matches slots xs ↔ Matches slots ys :=
    ⟨fun hm => hm.of_subperm_right h.subperm, fun hm => hm.of_subperm_right h.symm.subperm⟩
  have hextends : Extends slots xs ↔ Extends slots ys :=
    ⟨fun he => he.of_perm h.symm, fun he => he.of_perm h⟩
  rw [← success_iff_matches, ← success_iff_matches] at hmatches
  have hpending := pending_iff_extends slots xs
  rw [h.length_eq, hextends, ← pending_iff_extends] at hpending
  cases hx : outcome slots xs with
  | success chosen =>
    obtain ⟨chosen', hy⟩ := hmatches.1 ⟨chosen, hx⟩
    rw [hy]
    rfl
  | pending => rw [hpending.1 hx]
  | failure =>
    cases hy : outcome slots ys with
    | success chosen =>
      obtain ⟨chosen', hx'⟩ := hmatches.2 ⟨chosen, hy⟩
      cases hx.symm.trans hx'
    | pending => cases hx.symm.trans (hpending.2 hy)
    | failure => rfl

namespace Chain

/-! ## Any candidates that fit -/

/-- What links can end with when each takes any candidates that fit, and not those that it finds
first. -/
inductive MayEnd (ctx : Context) : List Link → List Piece → Scope → Status → Prop
  | matched (s : Scope) : MayEnd ctx [] [] s .success
  | leftover {candidates : List Piece} {s : Scope} (some_left : candidates ≠ []) :
      MayEnd ctx [] candidates s .failure
  | unmatched {l : Link} {rest : List Link} {candidates : List Piece} {s : Scope} {status : Status}
      (answer : (Matcher.outcome l.matcher.slots candidates).status = status)
      (not_success : status ≠ .success) : MayEnd ctx (l :: rest) candidates s status
  | refused {l : Link} {rest : List Link} {candidates pieces left : List Piece} {s : Scope}
      (takes : l.Takes candidates pieces left)
      (guard : l.guardHolds ctx (l.matcher.bound pieces s.push) = .ok false) :
      MayEnd ctx (l :: rest) candidates s .failure
  | onward {l : Link} {rest : List Link} {candidates pieces left : List Piece} {s : Scope}
      {status : Status} (takes : l.Takes candidates pieces left)
      (guard : l.guardHolds ctx (l.matcher.bound pieces s.push) = .ok true)
      (next : MayEnd ctx rest left (l.matcher.bound pieces s.push) status) :
      MayEnd ctx (l :: rest) candidates s status

variable {ctx : Context} {links : List Link} {candidates candidates' : List Piece} {s : Scope}
  {status status' : Status}

theorem MayEnd.of_perm (h : MayEnd ctx links candidates s status)
    (hperm : candidates.Perm candidates') : MayEnd ctx links candidates' s status := by
  cases h with
  | matched =>
    rw [hperm.nil_eq.symm]
    exact .matched s
  | leftover hsome => exact .leftover fun hnil => hsome (hperm.trans (.of_eq hnil)).eq_nil
  | unmatched hanswer hne => exact .unmatched (Matcher.status_outcome_of_perm hperm ▸ hanswer) hne
  | refused htakes hguard => exact .refused (htakes.of_perm hperm) hguard
  | onward htakes hguard hnext => exact .onward (htakes.of_perm hperm) hguard hnext

/-! ## Links one after the other -/

theorem status_withLink (m : Matched)
    (result : Except EvalError (Outcome (List Matched)) × Scope) :
    (withLink m result).1.map Outcome.status = result.1.map Outcome.status := by
  obtain ⟨answer, u⟩ := result
  cases answer with
  | error e => rfl
  | ok o => cases o <;> rfl

/-- The status of a match, link by link. -/
theorem status_walk_cons (ctx : Context) (l : Link) (rest : List Link)
    (indexed : List (Nat × Piece)) (s : Scope) :
    (walk ctx (l :: rest) indexed s).1.map Outcome.status =
      match Matcher.outcome l.matcher.slots (indexed.map Prod.snd) with
      | .pending => .ok .pending
      | .failure => .ok .failure
      | .success chosen =>
        match l.guardHolds ctx (linkScope l indexed chosen s) with
        | .error e => .error e
        | .ok false => .ok .failure
        | .ok true => (walk ctx rest (Link.leftover indexed chosen)
            (linkScope l indexed chosen s)).1.map Outcome.status := by
  rw [walk, Matcher.test_eq_outcome]
  cases Matcher.outcome l.matcher.slots (indexed.map Prod.snd) with
  | pending => rfl
  | failure => rfl
  | success chosen =>
    simp only [linkScope]
    cases l.guardHolds ctx
        (l.matcher.bound (Matcher.piecesAt (indexed.map Prod.snd) chosen) s.push) with
    | error e => rfl
    | ok holds =>
      cases holds with
      | false => rfl
      | true => exact status_withLink ⟨l, indicesAt indexed chosen⟩ _

/-- When the first candidates fit in their order, the links after go on with the others. -/
theorem status_walk_of_forall₂ {l : Link} {pieces : List Piece}
    (haccepts : List.Forall₂ (fun q p => q.accepts p = true) l.matcher.slots pieces)
    (ctx : Context) (rest : List Link) {left : List Piece} {indexed : List (Nat × Piece)}
    (hindexed : indexed.map Prod.snd = pieces ++ left) (s : Scope) :
    (walk ctx (l :: rest) indexed s).1.map Outcome.status =
      match l.guardHolds ctx (l.matcher.bound pieces s.push) with
      | .error e => .error e
      | .ok false => .ok .failure
      | .ok true => (walk ctx rest (indexed.drop pieces.length)
          (l.matcher.bound pieces s.push)).1.map Outcome.status := by
  rw [status_walk_cons, hindexed, Matcher.outcome_append_of_forall₂ haccepts left]
  simp only [linkScope, hindexed, Matcher.piecesAt_append_range, Link.leftover_range]

/-- What is found first is among what fits.  The induction is on the links. -/
theorem mayEnd_of_walk {indexed : List (Nat × Piece)}
    (h : (walk ctx links indexed s).1.map Outcome.status = .ok status) :
    MayEnd ctx links (indexed.map Prod.snd) s status := by
  induction links generalizing indexed s with
  | nil =>
    cases indexed with
    | nil =>
      cases h
      exact .matched s
    | cons entry rest =>
      cases h
      exact .leftover (List.cons_ne_nil _ _)
  | cons l rest ih =>
    rw [status_walk_cons] at h
    cases hoc : Matcher.outcome l.matcher.slots (indexed.map Prod.snd) with
    | pending =>
      rw [hoc] at h
      cases h
      exact .unmatched (congrArg Outcome.status hoc) (by decide)
    | failure =>
      rw [hoc] at h
      cases h
      exact .unmatched (congrArg Outcome.status hoc) (by decide)
    | success chosen =>
      rw [hoc] at h
      have htakes := Link.takes_of_fits (Matcher.fits_of_outcome hoc)
      cases hg : l.guardHolds ctx (linkScope l indexed chosen s) with
      | error e => simp [hg] at h
      | ok holds =>
        cases holds with
        | false =>
          simp only [hg] at h
          cases h
          exact .refused htakes hg
        | true =>
          simp only [hg] at h
          exact .onward htakes hg (ih h)

/-- Candidates that come in the order in which they are taken are the first that fit.  The induction
is on the links. -/
theorem exists_order_of_mayEnd (h : MayEnd ctx links candidates s status) :
    ∃ order : List Piece, order.Perm candidates ∧
      ∀ indexed : List (Nat × Piece), indexed.map Prod.snd = order →
        (walk ctx links indexed s).1.map Outcome.status = .ok status := by
  induction h with
  | matched s =>
    refine ⟨[], .refl _, fun indexed hindexed => ?_⟩
    rw [List.map_eq_nil_iff.1 hindexed]
    rfl
  | @leftover candidates s hsome =>
    refine ⟨candidates, .refl _, fun indexed hindexed => ?_⟩
    cases indexed with
    | nil => exact absurd hindexed.symm hsome
    | cons entry rest => rfl
  | @unmatched l rest candidates s status hanswer hne =>
    refine ⟨candidates, .refl _, fun indexed hindexed => ?_⟩
    rw [status_walk_cons, hindexed]
    subst hanswer
    cases hoc : Matcher.outcome l.matcher.slots candidates with
    | pending => rfl
    | failure => rfl
    | success chosen => exact absurd (congrArg Outcome.status hoc) hne
  | @refused l rest candidates pieces left s htakes hguard =>
    refine ⟨pieces ++ left, htakes.split, fun indexed hindexed => ?_⟩
    rw [status_walk_of_forall₂ htakes.accepts ctx rest hindexed, hguard]
  | @onward l rest candidates pieces left s status htakes hguard _ ih =>
    obtain ⟨order, hperm, hwalk⟩ := ih
    refine ⟨pieces ++ order, (hperm.append_left pieces).trans htakes.split,
      fun indexed hindexed => ?_⟩
    rw [status_walk_of_forall₂ htakes.accepts ctx rest hindexed, hguard]
    refine hwalk (indexed.drop pieces.length) ?_
    rw [List.map_drop, hindexed, List.drop_left]

/-! ## Rules -/

/-- The links of the rule end with one status only, whichever candidates they take. -/
def Settled (c : Chain) (ctx : Context) (candidates : List Piece) (s : Scope) : Prop :=
  ∀ status status', MayEnd ctx c.links candidates s.push status →
    MayEnd ctx c.links candidates s.push status' → status = status'

variable {c : Chain}

/-- Only results can raise an error after the links have matched. -/
theorem status_test (hquiet : ∀ e, (c.test ctx candidates s).1 ≠ .error e) :
    (c.test ctx candidates s).1.map Outcome.status =
      (walk ctx c.links (candidates.zipIdx.map Prod.swap) s.push).1.map Outcome.status := by
  have htest : (c.test ctx candidates s).1 = (c.matchAll ctx candidates s.push).1 := rfl
  rw [htest] at hquiet ⊢
  rw [matchAll] at hquiet ⊢
  cases hw : walk ctx c.links (candidates.zipIdx.map Prod.swap) s.push with
  | mk answer u =>
    rw [hw] at hquiet
    cases answer with
    | error e => rfl
    | ok o =>
      cases o with
      | pending => rfl
      | failure => rfl
      | success matched =>
        cases hr : replacements ctx u matched with
        | error e => exact absurd (by simp [hr]) (hquiet e)
        | ok rs => simp [hr, Except.map, Outcome.status]

theorem exists_mayEnd (hquiet : ∀ e, (c.test ctx candidates s).1 ≠ .error e) :
    ∃ status, (c.test ctx candidates s).1.map Outcome.status = .ok status ∧
      MayEnd ctx c.links candidates s.push status := by
  cases htest : (c.test ctx candidates s).1 with
  | error e => exact absurd htest (hquiet e)
  | ok o =>
    have hwalk := status_test hquiet
    rw [htest] at hwalk
    have hend := mayEnd_of_walk hwalk.symm
    rw [map_snd_zipIdx] at hend
    exact ⟨o.status, rfl, hend⟩

theorem Settled.status_eq (h : c.Settled ctx candidates s) (hperm : candidates.Perm candidates')
    (hquiet : ∀ e, (c.test ctx candidates s).1 ≠ .error e)
    (hquiet' : ∀ e, (c.test ctx candidates' s).1 ≠ .error e) :
    (c.test ctx candidates s).1.map Outcome.status =
      (c.test ctx candidates' s).1.map Outcome.status := by
  obtain ⟨status, htest, hend⟩ := exists_mayEnd hquiet
  obtain ⟨status', htest', hend'⟩ := exists_mayEnd hquiet'
  rw [htest, htest', h _ _ hend (hend'.of_perm hperm.symm)]

/-- Every way in which the links may end is the status of the rule for some order. -/
theorem settled_iff
    (hquiet : ∀ order : List Piece, order.Perm candidates →
      ∀ e, (c.test ctx order s).1 ≠ .error e) :
    c.Settled ctx candidates s ↔ ∀ order : List Piece, order.Perm candidates →
      (c.test ctx order s).1.map Outcome.status =
        (c.test ctx candidates s).1.map Outcome.status := by
  constructor
  · intro h order hperm
    exact (h.status_eq hperm.symm (hquiet _ (.refl _)) (hquiet order hperm)).symm
  · intro hsame
    have hany : ∀ status, MayEnd ctx c.links candidates s.push status →
        .ok status = (c.test ctx candidates s).1.map Outcome.status := by
      intro status hend
      obtain ⟨order, hperm, hwalk⟩ := exists_order_of_mayEnd hend
      rw [← hsame order hperm, status_test (hquiet order hperm)]
      exact (hwalk _ (map_snd_zipIdx order)).symm
    intro status status' hend hend'
    exact Except.ok.inj ((hany status hend).trans (hany status' hend').symm)

end Chain

/-! ## Rules that leave no choice -/

/-- No two pieces are accepted. -/
def Predicate.Exact (q : Predicate) : Prop :=
  ∀ p p', q.accepts p = true → q.accepts p' = true → p = p'

theorem Predicate.exact_literal (wanted : Piece) : (literal wanted).Exact := by
  intro p p' h h'
  exact (of_decide_eq_true h).trans (of_decide_eq_true h').symm

namespace Link

/-- Every slot accepts one piece at most. -/
def Exact (l : Link) : Prop := ∀ q ∈ l.matcher.slots, q.Exact

/-- The guard reads no name that the slots of the link bind. -/
def Blind (l : Link) : Prop := ∀ name ∈ l.guardNames, name ∉ l.matcher.bindNames

variable {l : Link} {candidates pieces pieces' left left' : List Piece}

theorem Exact.pieces_eq (h : l.Exact) (htakes : l.Takes candidates pieces left)
    (htakes' : l.Takes candidates pieces' left') : pieces = pieces' := by
  have haccepts := htakes.accepts
  have haccepts' := htakes'.accepts
  rw [Exact] at h
  generalize l.matcher.slots = qs at h haccepts haccepts'
  clear htakes htakes'
  induction haccepts generalizing pieces' with
  | nil =>
    cases haccepts'
    rfl
  | @cons q p qs pieces hq _ ih =>
    cases haccepts' with
    | @cons _ p' _ pieces' hq' hrest' =>
      obtain ⟨hexact, hothers⟩ := List.forall_mem_cons.1 h
      rw [hexact p p' hq hq', ih hothers hrest']

/-- A name that the slots do not bind stands for what it stood for. -/
theorem Takes.get?_bound (h : l.Takes candidates pieces left) {name : String}
    (hname : name ∉ l.matcher.bindNames) (s : Scope) :
    (l.matcher.bound pieces s).get? name = s.get? name := by
  have hnone : findEntry name (l.matcher.binds pieces).reverse = none := by
    rw [← Option.not_isSome_iff_eq_none, isSome_findEntry_iff, List.map_reverse, List.mem_reverse,
      Matcher.binds, Matcher.slotBinds, Predicate.map_fst_flatten_binds h.accepts]
    exact hname
  rw [Matcher.get?_bound, hnone, Option.none_or]

theorem Blind.guardHolds_eq (h : l.Blind) (htakes : l.Takes candidates pieces left)
    (htakes' : l.Takes candidates pieces' left') (ctx : Context) (s : Scope) :
    l.guardHolds ctx (l.matcher.bound pieces s) = l.guardHolds ctx (l.matcher.bound pieces' s) := by
  unfold Blind guardNames at h
  unfold guardHolds
  cases hguard : l.guard with
  | none => rfl
  | some e =>
    rw [hguard] at h
    refine Expression.test_congr (Context.Alike.refl ctx) e fun name hname => ?_
    rw [htakes.get?_bound (h name hname), htakes'.get?_bound (h name hname)]

end Link

namespace Chain

/-- Links that leave no choice that counts.  In all of them every slot accepts one piece at most;
the last one may accept more when its guard reads no name that its slots bind. -/
inductive Narrow : List Link → Prop
  | last {l : Link} (h : l.Exact ∨ l.Blind) : Narrow [l]
  | cons {l : Link} {rest : List Link} (h : l.Exact) (next : Narrow rest) : Narrow (l :: rest)

variable {ctx : Context} {l : Link} {rest links : List Link} {candidates : List Piece} {s : Scope}
  {status status' : Status}

/-- Two ways in which links may end, one link on: the guard of the first link must not tell them
apart, nor the links after it. -/
theorem MayEnd.eq_of_link
    (hguard : ∀ pieces left pieces' left', l.Takes candidates pieces left →
      l.Takes candidates pieces' left' → l.guardHolds ctx (l.matcher.bound pieces s.push) =
        l.guardHolds ctx (l.matcher.bound pieces' s.push))
    (hnext : ∀ pieces left pieces' left', l.Takes candidates pieces left →
      l.Takes candidates pieces' left' →
        MayEnd ctx rest left (l.matcher.bound pieces s.push) status →
        MayEnd ctx rest left' (l.matcher.bound pieces' s.push) status' → status = status')
    (h : MayEnd ctx (l :: rest) candidates s status)
    (h' : MayEnd ctx (l :: rest) candidates s status') : status = status' := by
  -- a pattern that some candidates fit does not answer that it does not match
  have hanswer : ∀ {pieces left st}, l.Takes candidates pieces left →
      (Matcher.outcome l.matcher.slots candidates).status = st → st = .success := by
    intro pieces left st htakes hst
    obtain ⟨chosen, hchosen⟩ := htakes.exists_success
    rw [← hst, hchosen]
    rfl
  cases h with
  | unmatched hst hne =>
    cases h' with
    | unmatched hst' _ => exact hst.symm.trans hst'
    | refused htakes' _ => exact absurd (hanswer htakes' hst) hne
    | onward htakes' _ _ => exact absurd (hanswer htakes' hst) hne
  | refused htakes hg =>
    cases h' with
    | unmatched hst' hne' => exact absurd (hanswer htakes hst') hne'
    | refused _ _ => rfl
    | onward htakes' hg' _ =>
      rw [hguard _ _ _ _ htakes htakes', hg'] at hg
      cases hg
  | onward htakes hg hend =>
    cases h' with
    | unmatched hst' hne' => exact absurd (hanswer htakes hst') hne'
    | refused htakes' hg' =>
      rw [hguard _ _ _ _ htakes htakes', hg'] at hg
      cases hg
    | onward htakes' _ hend' => exact hnext _ _ _ _ htakes htakes' hend hend'

theorem MayEnd.eq_of_nil {candidates' : List Piece} {s' : Scope}
    (hlen : candidates.length = candidates'.length) (h : MayEnd ctx [] candidates s status)
    (h' : MayEnd ctx [] candidates' s' status') : status = status' := by
  cases h with
  | matched =>
    cases h' with
    | matched => rfl
    | leftover hsome => exact absurd (List.length_eq_zero_iff.1 hlen.symm) hsome
  | leftover hsome =>
    cases h' with
    | matched => exact absurd (List.length_eq_zero_iff.1 hlen) hsome
    | leftover _ => rfl

/-- The induction is on the links. -/
theorem Narrow.eq_of_mayEnd (h : Narrow links) (hend : MayEnd ctx links candidates s status)
    (hend' : MayEnd ctx links candidates s status') : status = status' := by
  induction h generalizing candidates s with
  | @last l h =>
    refine MayEnd.eq_of_link ?_ ?_ hend hend'
    · intro pieces left pieces' left' htakes htakes'
      rcases h with hexact | hblind
      · rw [hexact.pieces_eq htakes htakes']
      · exact hblind.guardHolds_eq htakes htakes' ctx s.push
    · intro pieces left pieces' left' htakes htakes' hnext hnext'
      exact hnext.eq_of_nil (htakes.length_left htakes') hnext'
  | @cons l rest hexact _ ih =>
    refine MayEnd.eq_of_link ?_ ?_ hend hend'
    · intro pieces left pieces' left' htakes htakes'
      rw [hexact.pieces_eq htakes htakes']
    · intro pieces left pieces' left' htakes htakes' hnext hnext'
      obtain rfl := hexact.pieces_eq htakes htakes'
      have hleft := (List.perm_append_left_iff pieces).1 (htakes.split.trans htakes'.split.symm)
      exact ih (hnext.of_perm hleft) hnext'

theorem Narrow.settled {c : Chain} (h : Narrow c.links) (ctx : Context) (candidates : List Piece)
    (s : Scope) : c.Settled ctx candidates s :=
  fun _ _ hend hend' => h.eq_of_mayEnd hend hend'

end Chain

/-! ## Rule sets -/

theorem Outcome.map_status_eq_success_iff {ε α : Type} {r : Except ε (Outcome α)} :
    r.map status = .ok .success ↔ ∃ value, r = .ok (.success value) := by
  cases r with
  | error e => simp [Except.map]
  | ok o => cases o <;> simp [Except.map, status]

theorem Outcome.map_status_eq_pending_iff {ε α : Type} {r : Except ε (Outcome α)} :
    r.map status = .ok .pending ↔ r = .ok .pending := by
  cases r with
  | error e => simp [Except.map]
  | ok o => cases o <;> simp [Except.map, status]

namespace RuleSet

variable {t : RuleSet} {ctx : Context} {xs ys : List Piece} {s : Scope}

theorem status_of_perm (hperm : xs.Perm ys) (hquiet : t.Quiet ctx xs s)
    (hquiet' : t.Quiet ctx ys s) (hsettled : ∀ c ∈ t.rules, c.Settled ctx xs s) :
    (t.test ctx xs s).1.map Outcome.status = (t.test ctx ys s).1.map Outcome.status := by
  have hstatus : ∀ c ∈ t.rules, (c.test ctx xs s).1.map Outcome.status =
      (c.test ctx ys s).1.map Outcome.status := fun c hc =>
    (hsettled c hc).status_eq hperm (hquiet c hc) (hquiet' c hc)
  refine status_congr hquiet hquiet' ?_ ?_
  · refine exists_congr fun c => and_congr_right fun hc => ?_
    rw [← Outcome.map_status_eq_success_iff, hstatus c hc, Outcome.map_status_eq_success_iff]
  · refine exists_congr fun c => and_congr_right fun hc => ?_
    rw [← Outcome.map_status_eq_pending_iff, hstatus c hc, Outcome.map_status_eq_pending_iff]

end RuleSet

/-- **The order of candidates.**  Where nothing raises an error, rules have one status for all
orders of the candidates if each of them ends with one status only, whichever of the candidates that
fit its links take.  For a single rule that is the only way: it has one status for all orders
exactly when it ends with one status only.  It does so if its slots accept one piece each, and also
if those of its last link accept more but the guard there reads no name that they bind. -/
theorem order_matters_by_choice :
    (∀ (t : RuleSet) (ctx : Context) (s : Scope) (xs ys : List Piece), xs.Perm ys →
      t.Quiet ctx xs s → t.Quiet ctx ys s → (∀ c ∈ t.rules, c.Settled ctx xs s) →
      (t.test ctx xs s).1.map Outcome.status = (t.test ctx ys s).1.map Outcome.status) ∧
    (∀ (c : Chain) (ctx : Context) (s : Scope) (xs : List Piece),
      (∀ ys : List Piece, ys.Perm xs → ∀ e, (c.test ctx ys s).1 ≠ .error e) →
      (c.Settled ctx xs s ↔ ∀ ys : List Piece, ys.Perm xs →
        (c.test ctx ys s).1.map Outcome.status = (c.test ctx xs s).1.map Outcome.status)) ∧
    ∀ c : Chain, Chain.Narrow c.links → ∀ ctx xs s, c.Settled ctx xs s :=
  ⟨fun _ _ _ _ _ hperm hquiet hquiet' hsettled =>
      RuleSet.status_of_perm hperm hquiet hquiet' hsettled,
    fun _ _ _ _ hquiet => Chain.settled_iff hquiet, fun _ h => h.settled⟩

namespace Games

/-- What every phase destroys. -/
def destroys : Table Piece Piece :=
  Table.ofList ([("fire", "metal"), ("metal", "wood"), ("wood", "earth"), ("earth", "water"),
    ("water", "fire")].map fun e => (mofang e.1, mofang e.2))

def destructionSlots : List Predicate :=
  [.key destroys none (some "victim"), .member (phases.map mofang) (some "other")]

/-- A phase and the one that it destroys, as the first rule of `mofang` has them. -/
def destruction : Chain where
  first := {
    matcher := .search destructionSlots
    guard := some (.equal [.binding "victim", .binding "other"])
    results := List.replicate destructionSlots.length (.const .empty)
    length_results := List.length_replicate }
  next := []

theorem head_rules_fivePhases (b : Board Piece) :
    (Definition.compileOn builtinFunctions builtinPredicates b fivePhases).map
        (fun d => d.rules.rules.head?) = .ok (some destruction) := by
  cbv

def emptyBoard : Context := ⟨⟨Catalog.empty "mofang", Board.empty 5⟩, Coord.origin⟩

/-- Fire destroys metal. -/
theorem test_fire_metal : (destruction.test emptyBoard [mofang "fire", mofang "metal"]
    Scope.empty).1 = .ok (.success [(0, none), (1, none)]) := by
  simp only [Chain.test, Scope.frame, Chain.matchAll, Chain.walk, Chain.links, destruction,
    destructionSlots, Matcher.test, Matcher.testSearch, Matcher.searchSlots,
    Assignment.assign_eq_place]
  rfl

/-- The first slot takes metal, which destroys wood, and the guard refuses fire in its place. -/
theorem test_metal_fire : (destruction.test emptyBoard [mofang "metal", mofang "fire"]
    Scope.empty).1 = .ok .failure := by
  simp only [Chain.test, Scope.frame, Chain.matchAll, Chain.walk, Chain.links, destruction,
    destructionSlots, Matcher.test, Matcher.testSearch, Matcher.searchSlots,
    Assignment.assign_eq_place]
  rfl

theorem destruction_ne_error {order : List Piece}
    (h : order.Perm [mofang "fire", mofang "metal"]) (e : EvalError) :
    (destruction.test emptyBoard order Scope.empty).1 ≠ .error e := by
  rcases List.pair_perm.1 h.symm with rfl | rfl
  · rw [test_fire_metal]
    simp
  · rw [test_metal_fire]
    simp

theorem quiet_destruction {order : List Piece} (h : order.Perm [mofang "fire", mofang "metal"]) :
    (RuleSet.mk [destruction]).Quiet emptyBoard order Scope.empty := by
  intro c hc e
  rw [List.mem_singleton.1 hc]
  exact destruction_ne_error h e

/-- Without the mirror image of its first rule, `mofang` would take fire and metal in one order
only. -/
theorem metal_before_fire_fails :
    (∃ d, Definition.compile fivePhases = .ok d ∧ d.rules.rules.head? = some destruction) ∧
    [mofang "fire", mofang "metal"].Perm [mofang "metal", mofang "fire"] ∧
    (RuleSet.mk [destruction]).Quiet emptyBoard [mofang "fire", mofang "metal"] Scope.empty ∧
    (RuleSet.mk [destruction]).Quiet emptyBoard [mofang "metal", mofang "fire"] Scope.empty ∧
    ((RuleSet.mk [destruction]).test emptyBoard [mofang "fire", mofang "metal"]
      Scope.empty).1.map Outcome.status = .ok .success ∧
    ((RuleSet.mk [destruction]).test emptyBoard [mofang "metal", mofang "fire"]
      Scope.empty).1.map Outcome.status = .ok .failure := by
  have hswap : [mofang "metal", mofang "fire"].Perm [mofang "fire", mofang "metal"] :=
    List.Perm.swap _ _ _
  refine ⟨exists_of_map_compile (head_rules_fivePhases _), hswap.symm,
    quiet_destruction (.refl _), quiet_destruction hswap, ?_, ?_⟩
  · rw [RuleSet.test, RuleSet.testFrom_of_success test_fire_metal]
    rfl
  · have hdecides : ∀ c ∈ [destruction],
        c.decides emptyBoard [mofang "metal", mofang "fire"] Scope.empty = false := by
      intro c hc
      rw [List.mem_singleton.1 hc, Chain.decides, test_metal_fire]
    rw [RuleSet.test, RuleSet.testFrom_of_none_decides _ 0 false hdecides]
    simp [Chain.isPending, test_metal_fire, Except.map, Outcome.status]

/-- Fire and metal leave the first slot a choice that counts; where no guard looks, no choice does.
-/
theorem destruction_not_settled :
    ¬ destruction.Settled emptyBoard [mofang "fire", mofang "metal"] Scope.empty ∧
    (∀ ctx xs s, (Chain.mk Relay.refused.first [(Relay.clearing Relay.pair).first]).Settled
      ctx xs s) ∧
    (∀ c ∈ Relay.clearance.rules.rules, Chain.Narrow c.links) ∧
    (Relay.clearance.rules.test Relay.context [Relay.green, Relay.red] Scope.empty).1.map
        Outcome.status =
      (Relay.clearance.rules.test Relay.context [Relay.red, Relay.green] Scope.empty).1.map
        Outcome.status := by
  obtain ⟨hsets, hrules, hnarrow⟩ := order_matters_by_choice
  have hclearing : ∀ c ∈ Relay.clearance.rules.rules, Chain.Narrow c.links := by
    intro c hc
    rcases List.mem_pair.1 hc with rfl | rfl <;>
      exact .last (.inr fun name hname => by cases hname)
  have hgreen : Relay.refused.first.Exact := by
    intro q hq
    rcases List.mem_pair.1 hq with rfl | rfl <;> exact Predicate.exact_literal _
  refine ⟨?_, hnarrow _ (.cons hgreen (hclearing _ List.mem_cons_self)), hclearing, ?_⟩
  · rw [hrules destruction emptyBoard Scope.empty _ fun order h => destruction_ne_error h]
    intro hsame
    have hstatus := hsame [mofang "metal", mofang "fire"] (List.Perm.swap _ _ _)
    rw [test_fire_metal, test_metal_fire] at hstatus
    cases hstatus
  · exact hsets Relay.clearance.rules Relay.context Scope.empty _ _ (List.Perm.swap _ _ _)
      (Relay.quiet_clearance _ _ _) (Relay.quiet_clearance _ _ _)
      fun c hc => hnarrow c (hclearing c hc) _ _ _

end Games

end HexRules
