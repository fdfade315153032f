import HexRules.Proofs.GameTables
import Mathlib.Data.Fin.VecNotation
import Mathlib.Data.List.FinRange

/-!
# The order of clicking

A guard is asked about the first choice of candidates only, so the order of the candidates can
decide whether a rule with a guard succeeds.  It does not matter to rules with a table in which
every reaction of a rule with a guard takes two pieces and the table has it with them turned round.
When the pieces of a reaction, too, fix what becomes of each, the replacements follow the
candidates.

    some rule succeeds on candidates ↔ some rule succeeds on them in another order
                                                                         (someSucceeds_of_perm)
    a rule of one link is pending on candidates → it is pending on them in another order
                                                                         (pending_of_perm)
    the tables of the bundled games are of this kind                     (orderFree_tables)
-/

namespace HexRules

/-! ## Tables that do not mind the order -/

/-- The order in which pieces are taken matters neither to whether they react nor to what becomes of
them. -/
structure RuleSet.OrderFree (table : List RuleEntry) : Prop where
  mirrored : ∀ e ∈ table, e.guarded = true → ∀ r ∈ e.reactions,
    r.length = 2 ∧ ∃ r' ∈ reactionsOf table, r'.taken = r.taken.reverse
  determined : ∀ r ∈ reactionsOf table, ∀ r' ∈ reactionsOf table,
    r.taken.Perm r'.taken → ∀ x ∈ r, ∀ y ∈ r', x.1 = y.1 → x.2 = y.2

theorem perm_of_length_two {α : Type} {xs ys : List α} (h : xs.Perm ys) (hlen : xs.length = 2) :
    ys = xs ∨ ys = xs.reverse := by
  obtain ⟨a, b, rfl⟩ := List.length_eq_two.1 hlen
  exact List.pair_perm.1 h

theorem mem_zip_ofFn {α β : Type} {n : Nat} (f : Fin n → α) (g : Fin n → β) (i : Fin n) :
    (f i, g i) ∈ (List.ofFn f).zip (List.ofFn g) := by
  have hi : i.val < ((List.ofFn f).zip (List.ofFn g)).length := by simp
  have hget : ((List.ofFn f).zip (List.ofFn g))[i.val] = (f i, g i) := by simp
  exact hget ▸ List.getElem_mem hi

theorem exists_eq_ofFn {α : Type} {n : Nat} {xs : List α} (h : xs.length = n) :
    ∃ f : Fin n → α, xs = List.ofFn f := by
  subst h
  exact ⟨xs.get, (List.ofFn_get xs).symm⟩

namespace Chain

variable {c : Chain} {ctx : Context} {candidates candidates' : List Piece} {s : Scope}

theorem pending_of_perm (hnext : c.next = []) (hperm : candidates.Perm candidates')
    (h : (c.test ctx candidates s).1 = .ok .pending) :
    (c.test ctx candidates' s).1 = .ok .pending := by
  rw [test_eq_pending_iff hnext] at h ⊢
  exact ⟨hperm.length_eq ▸ h.1, h.2.of_perm hperm.symm⟩

/-- Without a guard a rule takes its pieces in any order. -/
theorem exists_success_of_perm (hnext : c.next = []) (hguard : c.first.guard = none)
    (hraises : ∀ e, (c.test ctx candidates' s).1 ≠ .error e)
    (hperm : candidates.Perm candidates') {rs : List Replacement}
    (h : (c.test ctx candidates s).1 = .ok (.success rs)) :
    ∃ rs', (c.test ctx candidates' s).1 = .ok (.success rs') := by
  obtain ⟨hlen, hmatches⟩ := matches_of_success hnext h
  exact exists_success hnext hguard (hperm.length_eq ▸ hlen)
    (hmatches.of_subperm_right hperm.subperm) hraises

end Chain

namespace RuleSet.Tabulated

variable {t : RuleSet} {table : List RuleEntry} {ctx : Context} {s : Scope}
  {candidates candidates' : List Piece}

theorem somePending_of_perm (h : t.Tabulated table) (hperm : candidates.Perm candidates')
    (hsome : t.SomePending ctx candidates s) : t.SomePending ctx candidates' s := by
  obtain ⟨c, hc, hpending⟩ := hsome
  obtain ⟨e, -, hentry⟩ := exists_of_mem_forall₂ (h ctx s) hc
  exact ⟨c, hc, Chain.pending_of_perm hentry.next_eq hperm hpending⟩

/-- A rule without a guard takes the candidates in the other order itself; for a rule with one the
table has a reaction that does. -/
theorem someSucceeds_of_perm (h : t.Tabulated table) (hfree : OrderFree table)
    (hperm : candidates.Perm candidates') (hsome : t.SomeSucceeds ctx candidates s) :
    t.SomeSucceeds ctx candidates' s := by
  obtain ⟨c, hc, rs, hrs⟩ := hsome
  obtain ⟨e, he, hentry⟩ := exists_of_mem_forall₂ (h ctx s) hc
  cases hguard : e.guarded with
  | false =>
    have hnone : c.first.guard = none := by
      rw [← Option.isSome_eq_false_iff.trans Option.isNone_iff_eq_none, hentry.guard_eq, hguard]
    obtain ⟨rs', hrs'⟩ := Chain.exists_success_of_perm hentry.next_eq hnone
      (h.quiet ctx candidates' s c hc) hperm hrs
    exact ⟨c, hc, rs', hrs'⟩
  | true =>
    obtain ⟨r, hreacts, hzip⟩ := Chain.exists_reacts_of_success hentry.next_eq hrs
    have hr := (Link.mem_reactions_iff hentry.reactions_eq r).2 hreacts
    obtain ⟨hlen, r', hr', hreverse⟩ := hfree.mirrored e he hguard r hr
    obtain ⟨htaken, -⟩ := Reaction.perm_of_zip (by rw [length_inOrder]) hzip
    have hmem : r ∈ reactionsOf table := List.mem_flatMap.2 ⟨e, he, hr⟩
    obtain ⟨r'', hr'', heq⟩ : ∃ r'' ∈ reactionsOf table, candidates' = r''.taken := by
      rcases perm_of_length_two (htaken.symm.trans hperm)
        (by rw [Reaction.taken, List.length_map, hlen]) with heq | heq
      · exact ⟨r, hmem, heq⟩
      · exact ⟨r', hr', heq.trans hreverse.symm⟩
    rw [heq]
    exact (h.quiet ctx r''.taken s).exists_success_iff.1 (h.exists_success hr'' ctx s)

/-- The pieces of a reaction are a match in any order. -/
theorem exists_success_of_perm (h : t.Tabulated table) (hfree : OrderFree table) {r : Reaction}
    (hr : r ∈ reactionsOf table) (hperm : r.taken.Perm candidates) :
    ∃ m, (t.test ctx candidates s).1 = .ok (.success m) := by
  have hsome := (h.quiet ctx r.taken s).exists_success_iff.1 (h.exists_success hr ctx s)
  exact (h.quiet ctx candidates s).exists_success_iff.2 (h.someSucceeds_of_perm hfree hperm hsome)

theorem status_of_perm (h : t.Tabulated table) (hfree : OrderFree table)
    (hperm : candidates.Perm candidates') :
    (t.test ctx candidates s).1.map Outcome.status =
      (t.test ctx candidates' s).1.map Outcome.status :=
  status_congr (h.quiet ctx candidates s) (h.quiet ctx candidates' s)
    ⟨h.someSucceeds_of_perm hfree hperm, h.someSucceeds_of_perm hfree hperm.symm⟩
    ⟨h.somePending_of_perm hperm, h.somePending_of_perm hperm.symm⟩

/-- Equal pieces of two matches of the same pieces have equal replacements. -/
theorem replacement_congr (h : t.Tabulated table) (hfree : OrderFree table)
    (hperm : candidates.Perm candidates') {m m' : RuleMatch}
    (hm : (t.test ctx candidates s).1 = .ok (.success m))
    (hm' : (t.test ctx candidates' s).1 = .ok (.success m')) {p : Piece} {q q' : Option Piece}
    (hq : (p, q) ∈ candidates.zip m.replacements)
    (hq' : (p, q') ∈ candidates'.zip m'.replacements) : q = q' := by
  obtain ⟨r, hr, hlen, hzip⟩ := h.exists_reaction hm
  obtain ⟨r', hr', hlen', hzip'⟩ := h.exists_reaction hm'
  have htaken := (Reaction.perm_of_zip hlen hzip).1
  have htaken' := (Reaction.perm_of_zip hlen' hzip').1
  exact hfree.determined r hr r' hr' ((htaken.symm.trans hperm).trans htaken')
    (p, q) (hzip.mem_iff.1 hq) (p, q') (hzip'.mem_iff.1 hq') rfl

/-- The replacements follow the candidates. -/
theorem replacements_of_perm (h : t.Tabulated table) (hfree : OrderFree table) {n : Nat}
    {pieces : Fin n → Piece} {σ : Equiv.Perm (Fin n)} {m m' : RuleMatch}
    (hm : (t.test ctx (List.ofFn pieces) s).1 = .ok (.success m))
    (hm' : (t.test ctx (List.ofFn (pieces ∘ σ)) s).1 = .ok (.success m')) :
    ∃ becomes : Fin n → Option Piece, m.replacements = List.ofFn becomes ∧
      m'.replacements = List.ofFn (becomes ∘ σ) := by
  obtain ⟨-, -, hlen, -⟩ := h.exists_reaction hm
  obtain ⟨-, -, hlen', -⟩ := h.exists_reaction hm'
  rw [List.length_ofFn] at hlen hlen'
  obtain ⟨becomes, hbecomes⟩ := exists_eq_ofFn hlen.symm
  obtain ⟨becomes', hbecomes'⟩ := exists_eq_ofFn hlen'.symm
  have hfollows : becomes' = becomes ∘ σ := by
    funext j
    refine (h.replacement_congr hfree (σ.ofFn_comp_perm pieces).symm hm hm'
      (p := pieces (σ j)) ?_ ?_).symm
    · rw [hbecomes]
      exact mem_zip_ofFn pieces becomes (σ j)
    · rw [hbecomes']
      exact mem_zip_ofFn (pieces ∘ σ) becomes' j
  exact ⟨becomes, hbecomes, hfollows ▸ hbecomes'⟩

end RuleSet.Tabulated

/-! ## The bundled games -/

namespace Games

theorem orderFree_tables : ∀ table ∈ tables, RuleSet.OrderFree table := by
  have hmirrored : ∀ table ∈ tables, ∀ e ∈ table, e.guarded = true → ∀ r ∈ e.reactions,
      r.length = 2 ∧ ∃ r' ∈ RuleSet.reactionsOf table, r'.taken = r.taken.reverse := by
    decide +kernel
  have hdetermined : ∀ table ∈ tables, ∀ r ∈ RuleSet.reactionsOf table,
      ∀ r' ∈ RuleSet.reactionsOf table, r.taken.Perm r'.taken →
        ∀ x ∈ r, ∀ y ∈ r', x.1 = y.1 → x.2 = y.2 := by
    decide +kernel
  exact fun table h => ⟨hmirrored table h, hdetermined table h⟩

end Games

/-- **The order of clicking does not matter.**  The rules of a bundled game raise no error, and on
the same pieces in another order, wherever they are tested, they have the same status.  When they
succeed, the replacements are those of the pieces in the first order, in the other order. -/
theorem click_order_irrelevant : ∀ game ∈ Games.bundled,
    ∃ d, Definition.compile game.2 = .ok d ∧
      ∀ (ctx : Context) (s : Scope) (n : Nat) (candidates : Fin n → Piece) (σ : Equiv.Perm (Fin n)),
        ∃ o o', (d.rules.test ctx (List.ofFn candidates) s).1 = .ok o ∧
          (d.rules.test ctx (List.ofFn (candidates ∘ σ)) s).1 = .ok o' ∧
          o.status = o'.status ∧
          ∀ m, o = .success m → ∃ m', o' = .success m' ∧
            ∃ becomes : Fin n → Option Piece, m.replacements = List.ofFn becomes ∧
              m'.replacements = List.ofFn (becomes ∘ σ) := by
  intro game hgame
  obtain ⟨d, hd, table, hmem, htable⟩ := Games.exists_tabulated hgame
  have hfree := Games.orderFree_tables table hmem
  refine ⟨d, hd, fun ctx s n candidates σ => ?_⟩
  obtain ⟨o, ho⟩ := (htable.quiet ctx (List.ofFn candidates) s).exists_ok
  obtain ⟨o', ho'⟩ := (htable.quiet ctx (List.ofFn (candidates ∘ σ)) s).exists_ok
  have hstatus : (d.rules.test ctx (List.ofFn candidates) s).1.map Outcome.status =
      (d.rules.test ctx (List.ofFn (candidates ∘ σ)) s).1.map Outcome.status :=
    htable.status_of_perm hfree (σ.ofFn_comp_perm candidates).symm
  rw [ho, ho'] at hstatus
  have hsame : o.status = o'.status := Except.ok.inj hstatus
  refine ⟨o, o', ho, ho', hsame, ?_⟩
  rintro m rfl
  cases o' with
  | success m' => exact ⟨m', rfl, htable.replacements_of_perm hfree ho ho'⟩
  | pending => cases hsame
  | failure => cases hsame

namespace Games

/-- A human and fire, or fire and a human: they match, and what becomes of them is turned round. -/
theorem human_fire_either_order : ("mofang", fivePhases) ∈ bundled ∧
    ∃ d, Definition.compile fivePhases = .ok d ∧ ∀ ctx s, ∃ m m',
      (d.rules.test ctx [mofang "human", mofang "fire"] s).1 = .ok (.success m) ∧
      (d.rules.test ctx [mofang "fire", mofang "human"] s).1 = .ok (.success m') ∧
      m'.replacements = m.replacements.reverse := by
  have hmem : ("mofang", fivePhases) ∈ bundled := List.mem_cons_of_mem _ List.mem_cons_self
  obtain ⟨d, hd, horder⟩ := click_order_irrelevant _ hmem
  obtain ⟨d', hd', htable⟩ := exists_tabulated_of_profiles (profiles_fivePhases _)
  cases Except.ok.inj (hd.symm.trans hd')
  refine ⟨hmem, d, hd, fun ctx s => ?_⟩
  obtain ⟨m, hm⟩ := htable.exists_success
    (r := [(mofang "human", some (mofang "fire")), (mofang "fire", none)]) (by decide +kernel) ctx s
  obtain ⟨o, o', ho, ho', -, hsuccess⟩ :=
    horder ctx s 2 ![mofang "human", mofang "fire"] (Equiv.swap 0 1)
  cases Except.ok.inj (hm.symm.trans ho)
  obtain ⟨m', rfl, becomes, hbecomes, hbecomes'⟩ := hsuccess m rfl
  exact ⟨m, m', hm, ho', by rw [hbecomes, hbecomes']; rfl⟩

end Games

end HexRules
