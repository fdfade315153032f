import HexRules.Proofs.SearchPattern
import HexRules.Rules.RuleSet

/-!
# Tests of rules leave no trace

Matching a chain pushes frames for its links and for the slots of its searches, and returns with
them in place: after a success, after a refusal at any link, and with an error that a guard or a
result raised.  All that it leaves is on top of the frame that the test pushed, so dropping that
frame drops it all.

    s.Extends (walk ctx links indexed s).2                               (extends_walk)
    (c.test ctx candidates s).2 = s                                      (test_snd)
    (testFrom ctx candidates number pending rules s).2 = s               (testFrom_snd)
-/

namespace HexRules

namespace Chain

open Matcher

/-- The scope in which a link's guard is evaluated, when its pattern has taken the candidates at the
chosen positions. -/
def linkScope (l : Link) (indexed : List (Nat × Piece)) (chosen : List Nat) (s : Scope) : Scope :=
  l.matcher.bound (piecesAt (indexed.map Prod.snd) chosen) s.push

theorem extends_linkScope (l : Link) (indexed : List (Nat × Piece)) (chosen : List Nat)
    (s : Scope) : s.Extends (linkScope l indexed chosen s) :=
  (Scope.Extends.refl s).push.trans (extends_bound l.matcher _ s.push)

/-- How the match of a link goes on with what the links after it answer. -/
def withLink (m : Matched) (result : Except EvalError (Outcome (List Matched)) × Scope) :
    Except EvalError (Outcome (List Matched)) × Scope :=
  match result with
  | (.ok (.success matched), s) => (.ok (.success (m :: matched)), s)
  | other => other

theorem withLink_snd (m : Matched) (result : Except EvalError (Outcome (List Matched)) × Scope) :
    (withLink m result).2 = result.2 := by
  unfold withLink
  split <;> rfl

/-- The links after a link must match for the match to go on. -/
theorem exists_of_withLink {m : Matched}
    {result : Except EvalError (Outcome (List Matched)) × Scope} {matched : List Matched}
    {u : Scope} (h : withLink m result = (.ok (.success matched), u)) :
    ∃ after, result = (.ok (.success after), u) ∧ matched = m :: after := by
  obtain ⟨answer, t⟩ := result
  cases answer with
  | error e => cases h
  | ok outcome =>
    cases outcome with
    | pending => cases h
    | failure => cases h
    | success after =>
      cases h
      exact ⟨after, rfl, rfl⟩

/-- More pieces are asked for by the links after a link that has matched. -/
theorem eq_of_withLink_pending {m : Matched}
    {result : Except EvalError (Outcome (List Matched)) × Scope}
    (h : (withLink m result).1 = .ok .pending) : result.1 = .ok .pending := by
  obtain ⟨answer, t⟩ := result
  cases answer with
  | error e => cases h
  | ok outcome =>
    cases outcome with
    | pending => rfl
    | failure => cases h
    | success after => cases h

/-- All that a link can do: refuse or ask for more and leave a frame, or match, and then raise,
refuse or go on as its guard says. -/
theorem walk_cons_cases (ctx : Context) (l : Link) (rest : List Link)
    (indexed : List (Nat × Piece)) (s : Scope) :
    walk ctx (l :: rest) indexed s = (.ok .pending, s.push) ∨
      walk ctx (l :: rest) indexed s = (.ok .failure, s.push) ∨
      ∃ chosen, l.matcher.Fits (indexed.map Prod.snd) chosen ∧
        walk ctx (l :: rest) indexed s =
          match l.guardHolds ctx (linkScope l indexed chosen s) with
          | .error e => (.error e, linkScope l indexed chosen s)
          | .ok false => (.ok .failure, linkScope l indexed chosen s)
          | .ok true => withLink ⟨l, indicesAt indexed chosen⟩
              (walk ctx rest (Link.leftover indexed chosen) (linkScope l indexed chosen s)) := by
  rcases test_cases l.matcher (indexed.map Prod.snd) s.push with ⟨chosen, h, hfits⟩ | h | h
  · refine .inr (.inr ⟨chosen, hfits, ?_⟩)
    rw [walk, h]
    rfl
  · exact .inl (by rw [walk, h])
  · exact .inr (.inl (by rw [walk, h]))

theorem extends_walk (ctx : Context) (links : List Link) (indexed : List (Nat × Piece))
    (s : Scope) : s.Extends (walk ctx links indexed s).2 := by
  induction links generalizing indexed s with
  | nil => exact .refl s
  | cons l rest ih =>
    have hpush := (Scope.Extends.refl s).push
    rcases walk_cons_cases ctx l rest indexed s with h | h | ⟨chosen, -, h⟩
    · rw [h]
      exact hpush
    · rw [h]
      exact hpush
    · have hlink := extends_linkScope l indexed chosen s
      rw [h]
      split
      · exact hlink
      · exact hlink
      · rw [withLink_snd]
        exact hlink.trans (ih (Link.leftover indexed chosen) (linkScope l indexed chosen s))

theorem matchAll_snd (c : Chain) (ctx : Context) (candidates : List Piece) (s : Scope) :
    (c.matchAll ctx candidates s).2 =
      (walk ctx c.links (candidates.zipIdx.map Prod.swap) s).2 := by
  unfold matchAll
  split
  · simp [*]
  · simp [*]
  · simp [*]
  · split <;> simp [*]

theorem test_snd (c : Chain) (ctx : Context) (candidates : List Piece) (s : Scope) :
    (c.test ctx candidates s).2 = s := by
  apply Scope.frame_eq_self
  rw [matchAll_snd]
  exact (Scope.Extends.refl s).push.trans (extends_walk ctx c.links _ s.push)

end Chain

namespace RuleSet

theorem testFrom_snd (ctx : Context) (candidates : List Piece) (number : Nat) (pending : Bool)
    (rules : List Chain) (s : Scope) :
    (testFrom ctx candidates number pending rules s).2 = s := by
  induction rules generalizing number pending with
  | nil => rfl
  | cons c rest ih =>
    have hs := c.test_snd ctx candidates s
    cases hr : c.test ctx candidates s with
    | mk answer t =>
      rw [hr] at hs
      simp only at hs
      rw [testFrom, hr, hs]
      cases answer with
      | error e => rfl
      | ok outcome =>
        cases outcome with
        | success rs => rfl
        | pending => exact ih (number + 1) true
        | failure => exact ih (number + 1) pending

end RuleSet

/-- **No trace.**  Whatever a rule or a rule set answers, and whatever error a guard or a result
raises, the scope is the one before the test, frame by frame and count by count. -/
theorem snapshot_test (ctx : Context) (candidates : List Piece) (s : Scope) :
    (∀ c : Chain, (c.test ctx candidates s).2.snapshot = s.snapshot) ∧
      ∀ t : RuleSet, (t.test ctx candidates s).2.snapshot = s.snapshot := by
  constructor
  · intro c
    rw [c.test_snd]
  · intro t
    rw [RuleSet.test, RuleSet.testFrom_snd]

end HexRules
