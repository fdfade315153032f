import HexRules.Proofs.ClickEffect
import HexRules.Proofs.SingleLink

/-!
# Parts of a selection

Rules of one link, whatever their guards, take a part of what they take: if they are valid on some
pieces, they are valid on fewer of them in any order.  A rule that is valid has a slot for each of
the pieces, so it is pending on fewer; then the rules are pending too, unless one of them succeeds.

    t.Accepts ctx candidates s → ∃ c ∈ t.rules, c.Accepts ctx candidates s
                                                                         (exists_of_accepts)
    c ∈ t.rules, t.Quiet ctx candidates s, c.Accepts ctx candidates s →
      t.Accepts ctx candidates s                                         (accepts_of_rule)

So on the way to pieces that the rules take no click is rejected by them.
-/

namespace HexRules

/-- Fewer of the pieces of `goal`, in any order. -/
structure ProperPart (part goal : List Piece) : Prop where
  subperm : part.Subperm goal
  shorter : part.length < goal.length

namespace Chain

variable {c : Chain} {ctx ctx' : Context} {candidates part : List Piece} {s s' : Scope}

/-- The test of the rule succeeds or is pending. -/
def Accepts (c : Chain) (ctx : Context) (candidates : List Piece) (s : Scope) : Prop :=
  ∃ o, (c.test ctx candidates s).1 = .ok o ∧ o.isValid = true

/-- On a part of what it takes a rule of one link is pending. -/
theorem Accepts.pending_of_part (h : c.Accepts ctx candidates s) (hnext : c.next = [])
    (hpart : ProperPart part candidates) : (c.test ctx' part s').1 = .ok .pending := by
  obtain ⟨o, htest, ho⟩ := h
  obtain ⟨hlen, hextends⟩ := extends_of_isValid hnext htest ho
  exact (test_eq_pending_iff hnext).2
    ⟨Nat.lt_of_lt_of_le hpart.shorter hlen, hextends.of_subperm_left hpart.subperm⟩

end Chain

namespace RuleSet

variable {t : RuleSet} {ctx : Context} {candidates : List Piece} {s : Scope}

/-- The test of the rules succeeds or is pending. -/
def Accepts (t : RuleSet) (ctx : Context) (candidates : List Piece) (s : Scope) : Prop :=
  ∃ o, (t.test ctx candidates s).1 = .ok o ∧ o.isValid = true

/-- No rule raises an error. -/
def Quiet (t : RuleSet) (ctx : Context) (candidates : List Piece) (s : Scope) : Prop :=
  ∀ c ∈ t.rules, ∀ e, (c.test ctx candidates s).1 ≠ .error e

/-- The rules answer for the first that decides, or else say whether one of them is pending. -/
theorem test_cases (t : RuleSet) (ctx : Context) (candidates : List Piece) (s : Scope) :
    (∃ c ∈ t.rules, ∃ e, (c.test ctx candidates s).1 = .error e ∧
        (t.test ctx candidates s).1 = .error e) ∨
      (∃ c ∈ t.rules, ∃ rs m, (c.test ctx candidates s).1 = .ok (.success rs) ∧
        (t.test ctx candidates s).1 = .ok (.success m)) ∨
      (∀ c ∈ t.rules, c.decides ctx candidates s = false) ∧
        (t.test ctx candidates s).1 =
          .ok (if t.rules.any fun c => c.isPending ctx candidates s then .pending else .failure) := by
  rcases none_decides_or_exists t.rules ctx candidates s with hnone | ⟨before, c, after, hs, hc, hb⟩
  · exact .inr (.inr ⟨hnone, testFrom_of_none_decides t.rules 0 false hnone⟩)
  · have hmem : c ∈ t.rules := by simp [hs]
    obtain ⟨number, pending, htest⟩ : ∃ number pending,
        t.test ctx candidates s = testFrom ctx candidates number pending (c :: after) s :=
      ⟨_, _, by rw [test, hs, testFrom_append before _ 0 false hb]⟩
    rw [htest]
    rcases c.test_eq_cases ctx candidates s with ⟨e, hr⟩ | ⟨rs, hr⟩ | hr | hr
    · have he := congrArg Prod.fst hr
      exact .inl ⟨c, hmem, e, he, testFrom_of_error he _ _ after⟩
    · have hrs := congrArg Prod.fst hr
      exact .inr (.inl ⟨c, hmem, rs, _, hrs, testFrom_of_success hrs _ _ after⟩)
    · simp [Chain.decides, hr] at hc
    · simp [Chain.decides, hr] at hc

theorem exists_of_accepts (h : t.Accepts ctx candidates s) :
    ∃ c ∈ t.rules, c.Accepts ctx candidates s := by
  obtain ⟨o, htest, ho⟩ := h
  rcases t.test_cases ctx candidates s with
    ⟨c, -, e, -, he⟩ | ⟨c, hc, rs, m, hrs, -⟩ | ⟨-, hnone⟩
  · cases he.symm.trans htest
  · exact ⟨c, hc, .success rs, hrs, rfl⟩
  · cases hany : t.rules.any fun c => c.isPending ctx candidates s with
    | true =>
      obtain ⟨c, hc, hpending⟩ := List.any_eq_true.1 hany
      exact ⟨c, hc, .pending, Chain.isPending_iff.1 hpending, rfl⟩
    | false =>
      rw [hany] at hnone
      cases hnone.symm.trans htest
      cases ho

/-- The rules take what one of them takes, unless another raises an error. -/
theorem accepts_of_rule {c : Chain} (hc : c ∈ t.rules) (hquiet : t.Quiet ctx candidates s)
    (h : c.Accepts ctx candidates s) : t.Accepts ctx candidates s := by
  obtain ⟨o, htest, ho⟩ := h
  rcases t.test_cases ctx candidates s with
    ⟨d, hd, e, he, -⟩ | ⟨d, -, rs, m, -, hm⟩ | ⟨hnone, hanswer⟩
  · exact absurd he (hquiet d hd e)
  · exact ⟨.success m, hm, rfl⟩
  · have hpending : c.isPending ctx candidates s = true := by
      cases o with
      | pending => exact Chain.isPending_iff.2 htest
      | success rs =>
        have hno := hnone c hc
        simp [Chain.decides, htest] at hno
      | failure => cases ho
    rw [List.any_eq_true.2 ⟨c, hc, hpending⟩] at hanswer
    exact ⟨.pending, hanswer, rfl⟩

theorem Accepts.of_part {ctx' : Context} {part : List Piece} {s' : Scope}
    (h : t.Accepts ctx candidates s) (hnext : ∀ c ∈ t.rules, c.next = [])
    (hpart : ProperPart part candidates) (hquiet : t.Quiet ctx' part s') :
    t.Accepts ctx' part s' := by
  obtain ⟨c, hc, haccepts⟩ := exists_of_accepts h
  exact accepts_of_rule hc hquiet
    ⟨.pending, haccepts.pending_of_part (hnext c hc) hpart, rfl⟩

end RuleSet

/-- A click on a cell that the select condition allows is pending or succeeds if the rules take the
pieces with the one there. -/
theorem Session.Legal.status_of_accepts {d : Definition} {s : Session} {c : Coord} {p : Piece}
    (h : s.Legal d) (hc : c ∉ s.selected) (hp : s.board.get? c = some p)
    (hselect : s.isSelectable c = .ok true)
    (haccepts : s.definition.rules.Accepts (s.definition.context c) (s.candidates ++ [p])
      Scope.empty) :
    (s.click c).status = .ok .pending ∨ (s.click c).status = .ok .success := by
  obtain ⟨o, ho, hvalid⟩ := haccepts
  cases o with
  | success m => exact .inr (h.status_success hc hp hselect ho)
  | pending =>
    rw [click_eq_clickOutcome (Board.inBounds_of_get? hp) hc hp hselect ho]
    exact .inl rfl
  | failure => cases hvalid

/-- **Parts of what the rules take.**  Take rules of one link that succeed or are pending on some
pieces.  Where none of them raises an error, they succeed or are pending on fewer of these pieces in
any order, at any cell.  So, whatever has been clicked, a click on a cell that the select condition
allows is not rejected as long as the selected pieces and the one there are fewer of these pieces. -/
theorem accepts_of_part (t : RuleSet) (hnext : ∀ r ∈ t.rules, r.next = []) (ctx : Context)
    (goal : List Piece) (u : Scope) (hgoal : t.Accepts ctx goal u) :
    (∀ ctx' part u', ProperPart part goal → t.Quiet ctx' part u' → t.Accepts ctx' part u') ∧
    ∀ (d : Definition) (b : Board Piece) (cs : List Coord) (s : Session),
      d.rules = t → (Session.onBoard d b).clicks cs = s →
      ∀ c p, c ∉ s.selected → s.board.get? c = some p → s.isSelectable c = .ok true →
        ProperPart (s.candidates ++ [p]) goal →
        t.Quiet (s.definition.context c) (s.candidates ++ [p]) Scope.empty →
        (s.click c).status = .ok .pending ∨ (s.click c).status = .ok .success := by
  refine ⟨fun ctx' part u' hpart hquiet => hgoal.of_part hnext hpart hquiet, ?_⟩
  rintro d b cs s rfl hs c p hc hp hselect hpart hquiet
  have hlegal : s.Legal d := hs ▸ (Session.legal_onBoard d b).clicks cs
  have hrules : s.definition.rules = d.rules := by
    rw [hlegal.definition_eq]
    rfl
  refine hlegal.status_of_accepts hc hp hselect ?_
  rw [hrules]
  exact hgoal.of_part hnext hpart hquiet

namespace Relay

def triple : List Predicate := [.member [red, blue] none, .literal green, .literal red]

/-- On the board of `game`, clear two pieces or three. -/
def clearance : Definition := { game with rules := ⟨[clearing pair, clearing triple]⟩ }

theorem quiet_clearance (ctx : Context) (candidates : List Piece) (s : Scope) :
    clearance.rules.Quiet ctx candidates s := by
  intro c hc e
  rcases List.mem_pair.1 hc with rfl | rfl <;> exact clearing_ne_error _ ctx candidates s e

theorem accepts_clearance :
    clearance.rules.Accepts context [red, blue, green] Scope.empty := by
  refine ⟨.success ⟨1, [none, none, none]⟩, ?_, rfl⟩
  simp only [RuleSet.test, RuleSet.testFrom, clearance, Chain.test, Scope.frame, Chain.matchAll,
    Chain.walk, Chain.links, clearing, pair, triple, Matcher.test, Matcher.testSearch,
    Matcher.searchSlots, Matcher.searchCandidates, Assignment.assign_eq_place]
  rfl

/-- Green and red are part of what the second rule clears, and so is the red piece on the board. -/
theorem accepts_green_red :
    clearance.rules.Accepts context [green, red] Scope.empty ∧
      (((Session.onBoard clearance board).click Coord.origin).status = .ok .pending ∨
        ((Session.onBoard clearance board).click Coord.origin).status = .ok .success) := by
  have hnext : ∀ r ∈ clearance.rules.rules, r.next = [] := by
    intro r hr
    rcases List.mem_pair.1 hr with rfl | rfl <;> rfl
  obtain ⟨hparts, hclicks⟩ := accepts_of_part clearance.rules hnext context [red, blue, green]
    Scope.empty accepts_clearance
  have hpart : ProperPart [green, red] [red, blue, green] :=
    ⟨⟨[red, green], List.Perm.swap green red [], by decide⟩, by decide⟩
  have hselect : (Session.onBoard clearance board).isSelectable Coord.origin = .ok true := by
    have hp : (Session.onBoard clearance board).board.get? Coord.origin = some red := get?_origin
    rw [Session.isSelectable, hp]
    rfl
  refine ⟨hparts context [green, red] Scope.empty hpart (quiet_clearance context _ _), ?_⟩
  exact hclicks clearance board [] _ rfl rfl Coord.origin red List.not_mem_nil get?_origin hselect
    ⟨(List.sublist_append_left [red] [blue, green]).subperm, by decide⟩
    (quiet_clearance _ _ _)

end Relay

end HexRules
