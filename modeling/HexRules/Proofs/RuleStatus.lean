import HexRules.Proofs.PartialSelection

/-!
# The status of a rule set

When no rule raises an error, the status of a rule set is up to the statuses of its rules, whatever
their order: it succeeds when some rule does, and else is pending when some rule is.

    ∃ m, t.test … = .ok (.success m) ↔ some rule succeeds                (exists_success_iff)
    some rule succeeds on both candidates or on neither, and so is some rule pending
      → the rules have one status on both                                (status_congr)
-/

namespace HexRules.RuleSet

/-- Some rule succeeds. -/
def SomeSucceeds (t : RuleSet) (ctx : Context) (candidates : List Piece) (s : Scope) : Prop :=
  ∃ c ∈ t.rules, ∃ rs, (c.test ctx candidates s).1 = .ok (.success rs)

/-- Some rule is pending. -/
def SomePending (t : RuleSet) (ctx : Context) (candidates : List Piece) (s : Scope) : Prop :=
  ∃ c ∈ t.rules, (c.test ctx candidates s).1 = .ok .pending

variable {t : RuleSet} {ctx : Context} {candidates candidates' : List Piece} {s s' : Scope}

/-- Without errors there are three ways in which a test ends. -/
theorem Quiet.cases (hquiet : t.Quiet ctx candidates s) :
    (t.SomeSucceeds ctx candidates s ∧ ∃ m, (t.test ctx candidates s).1 = .ok (.success m)) ∨
      ¬ t.SomeSucceeds ctx candidates s ∧
        (t.SomePending ctx candidates s ∧ (t.test ctx candidates s).1 = .ok .pending ∨
          ¬ t.SomePending ctx candidates s ∧ (t.test ctx candidates s).1 = .ok .failure) := by
  rcases t.test_cases ctx candidates s with
    ⟨c, hc, e, he, -⟩ | ⟨c, hc, rs, m, hrs, hm⟩ | ⟨hnone, htest⟩
  · exact absurd he (hquiet c hc e)
  · exact .inl ⟨⟨c, hc, rs, hrs⟩, m, hm⟩
  · have hno : ¬ t.SomeSucceeds ctx candidates s := by
      rintro ⟨c, hc, rs, hrs⟩
      have hdecides := hnone c hc
      simp [Chain.decides, hrs] at hdecides
    refine .inr ⟨hno, ?_⟩
    cases hany : t.rules.any fun c => c.isPending ctx candidates s with
    | true =>
      obtain ⟨c, hc, hpending⟩ := List.any_eq_true.1 hany
      rw [hany] at htest
      exact .inl ⟨⟨c, hc, Chain.isPending_iff.1 hpending⟩, htest⟩
    | false =>
      rw [hany] at htest
      refine .inr ⟨?_, htest⟩
      rintro ⟨c, hc, hpending⟩
      exact List.any_eq_false.1 hany c hc (Chain.isPending_iff.2 hpending)

theorem Quiet.exists_ok (hquiet : t.Quiet ctx candidates s) :
    ∃ o, (t.test ctx candidates s).1 = .ok o := by
  rcases hquiet.cases with ⟨-, m, hm⟩ | ⟨-, ⟨-, htest⟩ | ⟨-, htest⟩⟩
  · exact ⟨_, hm⟩
  all_goals exact ⟨_, htest⟩

theorem Quiet.exists_success_iff (hquiet : t.Quiet ctx candidates s) :
    (∃ m, (t.test ctx candidates s).1 = .ok (.success m)) ↔ t.SomeSucceeds ctx candidates s := by
  rcases hquiet.cases with ⟨hsome, hm⟩ | ⟨hno, ⟨-, htest⟩ | ⟨-, htest⟩⟩
  · exact ⟨fun _ => hsome, fun _ => hm⟩
  all_goals
    refine ⟨?_, fun hsome => absurd hsome hno⟩
    rintro ⟨m, hm⟩
    cases htest.symm.trans hm

/-- What counts is whether some rule succeeds and whether some rule is pending, not which. -/
theorem status_congr (hquiet : t.Quiet ctx candidates s) (hquiet' : t.Quiet ctx candidates' s')
    (hsuccess : t.SomeSucceeds ctx candidates s ↔ t.SomeSucceeds ctx candidates' s')
    (hpending : t.SomePending ctx candidates s ↔ t.SomePending ctx candidates' s') :
    (t.test ctx candidates s).1.map Outcome.status =
      (t.test ctx candidates' s').1.map Outcome.status := by
  have h := hquiet.cases
  rw [hsuccess, hpending] at h
  rcases h with ⟨hsome, m, hm⟩ | ⟨hno, ⟨hp, ht⟩ | ⟨hp, ht⟩⟩ <;>
    rcases hquiet'.cases with ⟨hsome', m', hm'⟩ | ⟨hno', ⟨hp', ht'⟩ | ⟨hp', ht'⟩⟩
  · rw [hm, hm']
    rfl
  · exact absurd hsome hno'
  · exact absurd hsome hno'
  · exact absurd hsome' hno
  · rw [ht, ht']
  · exact absurd hp hp'
  · exact absurd hsome' hno
  · exact absurd hp' hp
  · rw [ht, ht']

end HexRules.RuleSet
