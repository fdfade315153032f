import HexRules.Proofs.ChainMatch

/-!
# Rules in order

In a rule set every rule answers what it answers when it is tested alone: the rules before it leave
the scope as it was.  The first rule that succeeds or raises an error decides; of the rules before
it nothing is kept but whether one of them was pending.

    no rule of `before` decides →
      testFrom ctx candidates number pending (before ++ after) s =
        testFrom ctx candidates (number + before.length) (pending || some of `before` is pending)
          after s                                                        (testFrom_append)

So a rule that is added after all others is asked only when none of them decides
(`test_by_first_deciding`).
-/

namespace HexRules

/-! ## A rule alone -/

namespace Chain

/-- Does the rule, tested alone, succeed or raise an error? -/
def decides (c : Chain) (ctx : Context) (candidates : List Piece) (s : Scope) : Bool :=
  match (c.test ctx candidates s).1 with
  | .error _ => true
  | .ok (.success _) => true
  | .ok .pending => false
  | .ok .failure => false

/-- Is the rule, tested alone, pending? -/
def isPending (c : Chain) (ctx : Context) (candidates : List Piece) (s : Scope) : Bool :=
  match (c.test ctx candidates s).1 with
  | .ok .pending => true
  | _ => false

variable {c : Chain} {ctx : Context} {candidates : List Piece} {s : Scope}

theorem isPending_iff :
    c.isPending ctx candidates s = true ↔ (c.test ctx candidates s).1 = .ok .pending := by
  unfold isPending
  constructor
  · intro h
    split at h
    · assumption
    · cases h
  · intro h
    rw [h]

/-- The four ways in which a test ends, whose scope is always the one before it. -/
theorem test_eq_cases (c : Chain) (ctx : Context) (candidates : List Piece) (s : Scope) :
    (∃ e, c.test ctx candidates s = (.error e, s)) ∨
      (∃ rs, c.test ctx candidates s = (.ok (.success rs), s)) ∨
      c.test ctx candidates s = (.ok .pending, s) ∨
      c.test ctx candidates s = (.ok .failure, s) := by
  have hs := c.test_snd ctx candidates s
  cases hr : c.test ctx candidates s with
  | mk answer t =>
    rw [hr] at hs
    simp only at hs
    subst hs
    cases answer with
    | error e => exact .inl ⟨e, rfl⟩
    | ok outcome =>
      cases outcome with
      | success rs => exact .inr (.inl ⟨rs, rfl⟩)
      | pending => exact .inr (.inr (.inl rfl))
      | failure => exact .inr (.inr (.inr rfl))

/-- Every candidate has a replacement, and it stands at the candidate's place. -/
theorem exists_replacement {rs : List Replacement}
    (h : (c.test ctx candidates s).1 = .ok (.success rs)) (index : Nat)
    (hi : index < candidates.length) :
    ∃ p, findEntry index rs = some p ∧
      (RuleSet.inOrder candidates.length rs)[index]? = some p := by
  obtain ⟨order, pieces, hpaired⟩ := paired_of_test h
  have hperm := hpaired.keys.trans hpaired.perm
  have hkey : index ∈ rs.map Prod.fst := hperm.mem_iff.2 (List.mem_range.2 hi)
  obtain ⟨⟨index', p⟩, hmem, rfl⟩ := List.mem_map.1 hkey
  have hnodup : (rs.map Prod.fst).Nodup := hperm.nodup_iff.2 List.nodup_range
  have hp := (findEntry_eq_some_iff index' p rs hnodup).2 hmem
  exact ⟨p, hp, RuleSet.getElem?_inOrder _ rs index' hi p hp⟩

end Chain

/-! ## Rules that do not decide -/

namespace RuleSet

variable {ctx : Context} {candidates : List Piece} {s : Scope}

theorem length_inOrder (count : Nat) (rs : List Replacement) :
    (inOrder count rs).length = count := by
  rw [inOrder, List.length_map, List.length_range]

/-- Rules that do not decide are passed over. -/
theorem testFrom_append (before after : List Chain) (number : Nat) (pending : Bool)
    (h : ∀ c ∈ before, c.decides ctx candidates s = false) :
    testFrom ctx candidates number pending (before ++ after) s =
      testFrom ctx candidates (number + before.length)
        (pending || before.any fun c => c.isPending ctx candidates s) after s := by
  induction before generalizing number pending with
  | nil => simp
  | cons c rest ih =>
    have hc := h c List.mem_cons_self
    have hrest := fun d hd => h d (List.mem_cons_of_mem _ hd)
    have hnumber : number + (c :: rest).length = number + 1 + rest.length := by
      rw [List.length_cons]
      omega
    rw [List.cons_append, testFrom, List.any_cons, hnumber]
    rcases c.test_eq_cases ctx candidates s with ⟨e, hr⟩ | ⟨rs, hr⟩ | hr | hr
    · simp [Chain.decides, hr] at hc
    · simp [Chain.decides, hr] at hc
    · have hpending : c.isPending ctx candidates s = true :=
        Chain.isPending_iff.2 (congrArg Prod.fst hr)
      simp only [hr]
      rw [ih (number + 1) true hrest, hpending]
      simp
    · have hpending : c.isPending ctx candidates s = false := by simp [Chain.isPending, hr]
      simp only [hr]
      rw [ih (number + 1) pending hrest, hpending]
      simp

/-- The answer of a rule that is tested with a number. -/
theorem testFrom_of_error {c : Chain} {e : EvalError}
    (h : (c.test ctx candidates s).1 = .error e) (number : Nat) (pending : Bool)
    (after : List Chain) :
    (testFrom ctx candidates number pending (c :: after) s).1 = .error e := by
  rw [testFrom]
  generalize c.test ctx candidates s = answer at h
  obtain ⟨answer, t⟩ := answer
  simp only at h
  rw [h]

theorem testFrom_of_success {c : Chain} {rs : List Replacement}
    (h : (c.test ctx candidates s).1 = .ok (.success rs)) (number : Nat) (pending : Bool)
    (after : List Chain) :
    (testFrom ctx candidates number pending (c :: after) s).1 =
      .ok (.success ⟨number, inOrder candidates.length rs⟩) := by
  rw [testFrom]
  generalize c.test ctx candidates s = answer at h
  obtain ⟨answer, t⟩ := answer
  simp only at h
  rw [h]

/-! ## The rule that decides -/

/-- The rule `c` has the number `k` and decides, and no rule before it does. -/
structure FirstDecides (t : RuleSet) (ctx : Context) (candidates : List Piece) (s : Scope)
    (k : Nat) (c : Chain) : Prop where
  rule : t.rules[k]? = some c
  decides : c.decides ctx candidates s = true
  before : ∀ j d, j < k → t.rules[j]? = some d → d.decides ctx candidates s = false

/-- The test comes to the first rule that decides with the number that the rule has. -/
theorem FirstDecides.test_eq {t : RuleSet} {k : Nat} {c : Chain}
    (h : t.FirstDecides ctx candidates s k c) :
    ∃ pending after, t.test ctx candidates s =
      testFrom ctx candidates k pending (c :: after) s := by
  obtain ⟨hk, hc⟩ := List.getElem?_eq_some_iff.1 h.rule
  have hsplit : t.rules = t.rules.take k ++ c :: t.rules.drop (k + 1) := by
    rw [← hc, ← List.drop_eq_getElem_cons hk, List.take_append_drop]
  have hbefore : ∀ d ∈ t.rules.take k, d.decides ctx candidates s = false := by
    intro d hd
    obtain ⟨j, hj⟩ := List.mem_iff_getElem?.1 hd
    rw [List.getElem?_take] at hj
    by_cases hjk : j < k
    · rw [if_pos hjk] at hj
      exact h.before j d hjk hj
    · rw [if_neg hjk] at hj
      cases hj
  have hlen : (t.rules.take k).length = k := by
    rw [List.length_take]
    omega
  rw [test, hsplit, testFrom_append _ _ 0 false hbefore, hlen, Nat.zero_add]
  exact ⟨_, _, rfl⟩

/-- Some rule is the first that decides, unless none does. -/
theorem none_decides_or_exists (rules : List Chain) (ctx : Context) (candidates : List Piece)
    (s : Scope) :
    (∀ c ∈ rules, c.decides ctx candidates s = false) ∨
      ∃ before c after, rules = before ++ c :: after ∧ c.decides ctx candidates s = true ∧
        ∀ d ∈ before, d.decides ctx candidates s = false := by
  cases hfind : rules.find? fun c => c.decides ctx candidates s with
  | none =>
    left
    intro c hc
    exact Bool.eq_false_iff.2 (List.find?_eq_none.1 hfind c hc)
  | some c =>
    obtain ⟨hc, before, after, hsplit, hbefore⟩ := List.find?_eq_some_iff_append.1 hfind
    right
    refine ⟨before, c, after, hsplit, hc, fun d hd => ?_⟩
    have hd' := hbefore d hd
    simpa using hd'

theorem testFrom_of_none_decides (rules : List Chain) (number : Nat) (pending : Bool)
    (h : ∀ c ∈ rules, c.decides ctx candidates s = false) :
    (testFrom ctx candidates number pending rules s).1 =
      .ok (if pending || rules.any fun c => c.isPending ctx candidates s then .pending
        else .failure) := by
  have happend := testFrom_append rules [] number pending h
  rw [List.append_nil] at happend
  rw [happend]
  rfl

/-- What comes after a rule that decides is not asked. -/
theorem testFrom_append_of_decides (rules after : List Chain) (number : Nat) (pending : Bool)
    (h : ∃ c ∈ rules, c.decides ctx candidates s = true) :
    (testFrom ctx candidates number pending (rules ++ after) s).1 =
      (testFrom ctx candidates number pending rules s).1 := by
  rcases none_decides_or_exists rules ctx candidates s with hnone | ⟨before, c, rest, rfl, hc, hb⟩
  · obtain ⟨c, hc, hdecides⟩ := h
    rw [hnone c hc] at hdecides
    cases hdecides
  · rw [List.append_assoc, List.cons_append, testFrom_append before _ number pending hb,
      testFrom_append before _ number pending hb]
    rcases c.test_eq_cases ctx candidates s with ⟨e, hr⟩ | ⟨rs, hr⟩ | hr | hr
    · have he := congrArg Prod.fst hr
      rw [testFrom_of_error he, testFrom_of_error he]
    · have hrs := congrArg Prod.fst hr
      rw [testFrom_of_success hrs, testFrom_of_success hrs]
    · simp [Chain.decides, hr] at hc
    · simp [Chain.decides, hr] at hc

/-- A rule set answers without a success and without an error only if no rule decides. -/
theorem decides_of_test {t : RuleSet}
    (h : (t.test ctx candidates s).1 ≠ .ok .pending ∧ (t.test ctx candidates s).1 ≠ .ok .failure) :
    ∃ c ∈ t.rules, c.decides ctx candidates s = true := by
  by_contra hno
  have hnone : ∀ c ∈ t.rules, c.decides ctx candidates s = false := by
    intro c hc
    by_contra hdecides
    rw [Bool.not_eq_false] at hdecides
    exact hno ⟨c, hc, hdecides⟩
  have htest := testFrom_of_none_decides t.rules 0 false hnone
  split at htest
  · exact h.1 htest
  · exact h.2 htest

/-- A rule that is added is asked only when no other rule decides. -/
theorem test_add (t : RuleSet) (c : Chain)
    (h : (t.test ctx candidates s).1 ≠ .ok .pending ∧ (t.test ctx candidates s).1 ≠ .ok .failure) :
    ((t.add c).test ctx candidates s).1 = (t.test ctx candidates s).1 :=
  testFrom_append_of_decides t.rules [c] 0 false (decides_of_test h)

/-- A rule set that is pending does not fail when a rule is added. -/
theorem test_add_ne_failure (t : RuleSet) (c : Chain)
    (h : (t.test ctx candidates s).1 = .ok .pending) :
    ((t.add c).test ctx candidates s).1 ≠ .ok .failure := by
  rcases none_decides_or_exists t.rules ctx candidates s with hnone | ⟨before, d, rest, hs, hd, -⟩
  · have htest := testFrom_of_none_decides t.rules 0 false hnone
    have hpending : (t.rules.any fun c => c.isPending ctx candidates s) = true := by
      by_contra hno
      rw [Bool.not_eq_true] at hno
      rw [hno] at htest
      rw [test, htest] at h
      cases h
    have happend := testFrom_append t.rules [c] 0 false hnone
    rw [hpending] at happend
    show (testFrom ctx candidates 0 false (t.rules ++ [c]) s).1 ≠ _
    rw [happend, testFrom]
    rcases c.test_eq_cases ctx candidates s with ⟨e, hr⟩ | ⟨rs, hr⟩ | hr | hr <;>
      simp [hr, testFrom]
  · have hmem : d ∈ t.rules := by
      rw [hs]
      simp
    have hsame := testFrom_append_of_decides t.rules [c] 0 false ⟨d, hmem, hd⟩
    show (testFrom ctx candidates 0 false (t.rules ++ [c]) s).1 ≠ _
    rw [hsame]
    rw [test] at h
    rw [h]
    simp

end RuleSet

/-- **The first rule that decides.**  A rule set answers what its first rule that succeeds or raises
an error answers alone, with the replacements in candidate order.  When there is no such rule it is
pending if some rule alone is pending, and fails otherwise.  So adding a rule changes no success and
no error, and a rule set that is pending does not fail with one rule more. -/
theorem test_by_first_deciding (ctx : Context) (candidates : List Piece) (s : Scope)
    (t : RuleSet) :
    (∀ k c, t.FirstDecides ctx candidates s k c →
      (∀ e, (c.test ctx candidates s).1 = .error e → (t.test ctx candidates s).1 = .error e) ∧
      ∀ rs, (c.test ctx candidates s).1 = .ok (.success rs) →
        ∃ v, (t.test ctx candidates s).1 = .ok (.success ⟨k, v⟩) ∧
          v.length = candidates.length ∧
          ∀ index, index < candidates.length →
            ∃ p, findEntry index rs = some p ∧ v[index]? = some p) ∧
    ((∀ c ∈ t.rules, c.decides ctx candidates s = false) →
      ((∃ c ∈ t.rules, (c.test ctx candidates s).1 = .ok .pending) →
        (t.test ctx candidates s).1 = .ok .pending) ∧
      ((∀ c ∈ t.rules, (c.test ctx candidates s).1 ≠ .ok .pending) →
        (t.test ctx candidates s).1 = .ok .failure)) ∧
    ∀ c,
      (∀ m, (t.test ctx candidates s).1 = .ok (.success m) →
        ((t.add c).test ctx candidates s).1 = .ok (.success m)) ∧
      (∀ e, (t.test ctx candidates s).1 = .error e →
        ((t.add c).test ctx candidates s).1 = .error e) ∧
      ((t.test ctx candidates s).1 = .ok .pending →
        ((t.add c).test ctx candidates s).1 ≠ .ok .failure) := by
  refine ⟨?_, ?_, ?_⟩
  · intro k c hfirst
    obtain ⟨pending, after, htest⟩ := hfirst.test_eq
    rw [htest]
    refine ⟨fun e he => RuleSet.testFrom_of_error he k pending after, fun rs hrs => ?_⟩
    exact ⟨_, RuleSet.testFrom_of_success hrs k pending after, RuleSet.length_inOrder _ rs,
      Chain.exists_replacement hrs⟩
  · intro hnone
    have htest := RuleSet.testFrom_of_none_decides t.rules 0 false hnone
    constructor
    · rintro ⟨c, hc, hpending⟩
      have hany : (t.rules.any fun c => c.isPending ctx candidates s) = true :=
        List.any_eq_true.2 ⟨c, hc, Chain.isPending_iff.2 hpending⟩
      rw [RuleSet.test, htest, hany]
      rfl
    · intro hno
      have hany : (t.rules.any fun c => c.isPending ctx candidates s) = false := by
        rw [List.any_eq_false]
        intro c hc hpending
        exact hno c hc (Chain.isPending_iff.1 hpending)
      rw [RuleSet.test, htest, hany]
      rfl
  · intro c
    refine ⟨fun m hm => ?_, fun e he => ?_, t.test_add_ne_failure c⟩
    · rw [t.test_add c (by simp [hm]), hm]
    · rw [t.test_add c (by simp [he]), he]

namespace Relay

/-- A slot more than there are candidates. -/
def waiting : Chain :=
  ⟨⟨.search [.literal green, .literal blue, .literal red, .literal red], none,
    List.replicate 4 (.const .empty), rfl⟩, []⟩

/-- The guard asks for a name that nothing binds. -/
def raising : Chain :=
  ⟨⟨.search [.literal green, .literal blue, .literal red], some (.binding "third"),
    List.replicate 3 (.const .empty), rfl⟩, []⟩

theorem test_waiting :
    (waiting.test context [red, blue, green] Scope.empty).1 = .ok .pending := by
  simp only [Chain.test, Scope.frame, Chain.matchAll, Chain.walk, Chain.links, waiting,
    Matcher.test, Matcher.testSearch, Matcher.searchSlots, Matcher.searchCandidates,
    Assignment.assign_eq_place]
  rfl

theorem test_refused :
    (refused.test context [red, blue, green] Scope.empty).1 = .ok .failure := by
  simp only [Chain.test, Scope.frame, Chain.matchAll, Chain.walk, Chain.links, refused,
    Matcher.test, Matcher.testSearch, Matcher.searchSlots, Matcher.searchCandidates,
    Assignment.assign_eq_place]
  rfl

theorem test_raising :
    (raising.test context [red, blue, green] Scope.empty).1 = .error (.unbound "third") := by
  simp only [Chain.test, Scope.frame, Chain.matchAll, Chain.walk, Chain.links, raising,
    Matcher.test, Matcher.testSearch, Matcher.searchSlots, Assignment.assign_eq_place]
  rfl

/-- A success after a pending rule, an error before a success, and a success that stays when a rule
that raises is added. -/
theorem first_deciding :
    (∃ v, ((RuleSet.mk [waiting, refused, chain]).test context [red, blue, green]
        Scope.empty).1 = .ok (.success ⟨2, v⟩)) ∧
      ((RuleSet.mk [waiting, raising, chain]).test context [red, blue, green]
        Scope.empty).1 = .error (.unbound "third") ∧
      ((RuleSet.mk [refused, waiting]).test context [red, blue, green]
        Scope.empty).1 = .ok .pending ∧
      ∃ v, (((RuleSet.mk [waiting, refused, chain]).add raising).test context [red, blue, green]
        Scope.empty).1 = .ok (.success ⟨2, v⟩) := by
  have hwaiting : waiting.decides context [red, blue, green] Scope.empty = false := by
    rw [Chain.decides, test_waiting]
  have hrefused : refused.decides context [red, blue, green] Scope.empty = false := by
    rw [Chain.decides, test_refused]
  have hchain : (RuleSet.mk [waiting, refused, chain]).FirstDecides context [red, blue, green]
      Scope.empty 2 chain := by
    refine ⟨rfl, by rw [Chain.decides, test_chain], fun j d hj hd => ?_⟩
    have hcases : j = 0 ∨ j = 1 := by omega
    rcases hcases with rfl | rfl
    · cases hd
      exact hwaiting
    · cases hd
      exact hrefused
  have hraising : (RuleSet.mk [waiting, raising, chain]).FirstDecides context [red, blue, green]
      Scope.empty 1 raising := by
    refine ⟨rfl, by rw [Chain.decides, test_raising], fun j d hj hd => ?_⟩
    obtain rfl : j = 0 := by omega
    cases hd
    exact hwaiting
  obtain ⟨hsuccess, -, hadd⟩ := test_by_first_deciding context [red, blue, green] Scope.empty
    (RuleSet.mk [waiting, refused, chain])
  obtain ⟨herror, -⟩ := test_by_first_deciding context [red, blue, green] Scope.empty
    (RuleSet.mk [waiting, raising, chain])
  obtain ⟨-, hpending, -⟩ := test_by_first_deciding context [red, blue, green] Scope.empty
    (RuleSet.mk [refused, waiting])
  obtain ⟨v, hv, -⟩ := (hsuccess 2 chain hchain).2 _ test_chain
  refine ⟨⟨v, hv⟩, (herror 1 raising hraising).1 _ test_raising, ?_,
    ⟨v, (hadd raising).1 _ hv⟩⟩
  exact (hpending (by simp [hwaiting, hrefused])).1 ⟨waiting, by simp, test_waiting⟩

end Relay

end HexRules
