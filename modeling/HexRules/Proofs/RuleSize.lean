import HexRules.Proofs.ClickEffect
import HexRules.Proofs.PartialSelection

/-!
# Sizes of rules

Every slot of a link takes one candidate, and a link asks for more only when it has more slots than
there are candidates left.  So the number of slots of all links bounds what a rule can be pending on,
and with it what can be selected.

    (walk ctx links indexed s).1 = .ok .pending → indexed.length < number of slots of `links`
                                                                         (length_lt_of_walk)
    a rule is pending → candidates.length < c.totalLength                (length_lt_of_pending)
    a rule succeeds → candidates.length = c.totalLength                  (length_eq_of_success)
    c.totalLength < candidates.length → a rule fails or raises an error  (refuses_of_length_lt)
-/

namespace HexRules

namespace Matcher

/-- A pattern that is pending has a slot left for another candidate. -/
theorem length_lt_of_outcome {m : Matcher} {candidates : List Piece}
    (h : outcome m.slots candidates = .pending) : candidates.length < m.length := by
  rw [← m.length_slots]
  exact ((pending_iff_extends m.slots candidates).1 h).1

end Matcher

namespace Chain

open Matcher

variable {c : Chain} {ctx : Context} {candidates : List Piece} {s : Scope}

/-- The induction is on the links: one that matches leaves as many candidates fewer as it has slots,
so what is missing at a later link was missing from the start. -/
theorem length_lt_of_walk {links : List Link} {indexed : List (Nat × Piece)} {s : Scope}
    (h : (walk ctx links indexed s).1 = .ok .pending) :
    indexed.length < (links.flatMap Link.slots).length := by
  induction links generalizing indexed s with
  | nil =>
    rw [walk] at h
    split at h <;> cases h
  | cons l rest ih =>
    rw [walk, Matcher.test_eq_outcome] at h
    rw [List.flatMap_cons, List.length_append, l.length_slots]
    cases hoc : outcome l.matcher.slots (indexed.map Prod.snd) with
    | failure => simp [hoc] at h
    | pending =>
      have hlt := length_lt_of_outcome hoc
      rw [List.length_map] at hlt
      omega
    | success chosen =>
      have hcount := (fits_of_outcome hoc).length_leftover
      rw [Matcher.length_slots] at hcount
      simp only [hoc] at h
      split at h
      · cases h
      · cases h
      · have hlt := ih (eq_of_withLink_pending (m := ⟨l, indicesAt indexed chosen⟩) h)
        omega

theorem length_lt_of_pending (h : (c.test ctx candidates s).1 = .ok .pending) :
    candidates.length < c.totalLength := by
  have hlt := length_lt_of_walk (test_eq_pending_iff_walk.1 h)
  rw [List.length_map, List.length_zipIdx] at hlt
  rw [← c.length_slots]
  exact hlt

theorem length_eq_of_success {rs : List Replacement}
    (h : (c.test ctx candidates s).1 = .ok (.success rs)) :
    candidates.length = c.totalLength := by
  obtain ⟨order, pieces, hpaired⟩ := paired_of_test h
  rw [← c.length_slots, hpaired.length_eq, hpaired.length_candidates]

theorem refuses_of_length_lt (h : c.totalLength < candidates.length) :
    (c.test ctx candidates s).1 = .ok .failure ∨ ∃ e, (c.test ctx candidates s).1 = .error e := by
  rcases c.test_eq_cases ctx candidates s with ⟨e, hr⟩ | ⟨rs, hr⟩ | hr | hr
  · exact .inr ⟨e, congrArg Prod.fst hr⟩
  · have heq := length_eq_of_success (congrArg Prod.fst hr)
    omega
  · have hlt := length_lt_of_pending (congrArg Prod.fst hr)
    omega
  · exact .inl (congrArg Prod.fst hr)

end Chain

/-- A rule set is pending only if a rule of it is. -/
theorem RuleSet.exists_pending {t : RuleSet} {ctx : Context} {candidates : List Piece} {s : Scope}
    (h : (t.test ctx candidates s).1 = .ok .pending) :
    ∃ c ∈ t.rules, (c.test ctx candidates s).1 = .ok .pending := by
  rcases t.test_cases ctx candidates s with
    ⟨c, -, e, -, he⟩ | ⟨c, -, rs, m, -, hm⟩ | ⟨-, hanswer⟩
  · cases he.symm.trans h
  · cases hm.symm.trans h
  · rw [h] at hanswer
    cases hany : t.rules.any fun c => c.isPending ctx candidates s with
    | false =>
      rw [hany] at hanswer
      cases hanswer
    | true =>
      obtain ⟨c, hc, hpending⟩ := List.any_eq_true.1 hany
      exact ⟨c, hc, Chain.isPending_iff.1 hpending⟩

/-- The rules are pending on all that is selected, so one of them has a slot to spare. -/
theorem Session.Legal.exists_longer_rule {d : Definition} {s : Session} (h : s.Legal d)
    (hne : s.selected ≠ []) :
    ∃ c ∈ d.rules.rules, s.selected.length < c.totalLength := by
  have hpos := List.length_pos_iff.2 hne
  have hlen := h.holds.length_eq
  have hlast : s.selected[s.selected.length - 1]? = some (s.selected.getLast hne) := by
    rw [← List.getLast?_eq_getElem?, List.getLast?_eq_some_getLast]
  have hpending := h.pending _ _ hlast
  rw [List.take_of_length_le (by omega)] at hpending
  obtain ⟨c, hc, hc'⟩ := RuleSet.exists_pending hpending
  have hlt := Chain.length_lt_of_pending hc'
  rw [h.definition_eq] at hc
  exact ⟨c, hc, by omega⟩

/-- **A rule waits only for what fits it.**  A rule is pending on fewer candidates than it has slots,
and with more candidates than slots it fails or raises an error.  So whatever has been clicked, some
rule of the game has more slots than there are cells selected, if any are. -/
theorem length_bounds_pending (c : Chain) (ctx : Context) (candidates : List Piece) (s : Scope) :
    ((c.test ctx candidates s).1 = .ok .pending → candidates.length < c.totalLength) ∧
    (c.totalLength < candidates.length →
      (c.test ctx candidates s).1 = .ok .failure ∨
        ∃ e, (c.test ctx candidates s).1 = .error e) ∧
    ∀ (d : Definition) (b : Board Piece) (cs : List Coord),
      ((Session.onBoard d b).clicks cs).selected ≠ [] →
        ∃ rule ∈ d.rules.rules,
          ((Session.onBoard d b).clicks cs).selected.length < rule.totalLength :=
  ⟨Chain.length_lt_of_pending, Chain.refuses_of_length_lt,
    fun d b cs => ((Session.legal_onBoard d b).clicks cs).exists_longer_rule⟩

namespace Relay

/-- One red piece is too few for two slots, and four pieces are too many for the three slots of two
links; where red is selected, the rule that hands over has a slot left. -/
theorem slots_left :
    ((clearing pair).test context [red] Scope.empty).1 = .ok .pending ∧
      [red].length < (clearing pair).totalLength ∧
      chain.totalLength < [red, blue, green, red].length ∧
      ((chain.test context [red, blue, green, red] Scope.empty).1 = .ok .failure ∨
        ∃ e, (chain.test context [red, blue, green, red] Scope.empty).1 = .error e) ∧
      redSelected.selected ≠ [] ∧
      ∃ rule ∈ game.rules.rules, redSelected.selected.length < rule.totalLength := by
  have hlt : chain.totalLength < [red, blue, green, red].length := by decide
  have hne : redSelected.selected ≠ [] := by decide
  obtain ⟨hpending, -⟩ := length_bounds_pending (clearing pair) context [red] Scope.empty
  obtain ⟨-, hlong, hselected⟩ :=
    length_bounds_pending chain context [red, blue, green, red] Scope.empty
  have hrule := hselected game board [Coord.origin]
  rw [clicks_origin] at hrule
  exact ⟨test_pair_red, hpending test_pair_red, hlt, hlong hlt, hne, hrule hne⟩

end Relay

end HexRules
