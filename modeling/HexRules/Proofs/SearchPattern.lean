import HexRules.Proofs.LiteralPattern
import HexRules.Proofs.PieceTests

/-!
# Searched patterns

Both searches of a pattern with predicates ask predicates, so an attempt binds in its own frame and
dropping the frame undoes it.  A search for slots that succeeds leaves the scope with a frame for
every slot, bound as its predicate binds; every other end of a test leaves the scope as it was.

    m.test candidates s = (.success chosen, m.bound (pieces chosen) s), or
    m.test candidates s = (.pending, s), or (.failure, s)                (test_cases)
-/

namespace HexRules

namespace Matcher

open Assignment

/-- What the slots from `row` on have taken along a path, and what they have bound. -/
theorem takes_of_path {predicates : List Predicate} {candidates : List Piece} {row : Nat}
    {chosen : List Nat} {s t : Scope}
    (h : Path (slotAccepts predicates candidates) row chosen s t) :
    ∃ taken rest, predicates.drop row = taken ++ rest ∧
      List.Forall₂ (fun q position => ∃ p, candidates[position]? = some p ∧ q.accepts p = true)
        taken chosen ∧
      t = s.pushAll (taken.zipWith Predicate.binds (piecesAt candidates chosen)) := by
  induction h with
  | done row s => exact ⟨[], predicates.drop row, rfl, .nil, rfl⟩
  | @next row position more s t accepted onward ih =>
    obtain ⟨taken, rest, hdrop, htakes, hscope⟩ := ih
    unfold slotAccepts at accepted hscope
    cases hq : predicates[row]? with
    | none => simp [hq] at accepted
    | some q =>
      cases hp : candidates[position]? with
      | none => simp [hq, hp] at accepted
      | some p =>
        simp only [hq, hp, Predicate.test_eq] at accepted hscope
        obtain ⟨hr, hget⟩ := List.getElem?_eq_some_iff.1 hq
        refine ⟨q :: taken, rest, ?_, .cons ⟨p, hp, accepted⟩ htakes, ?_⟩
        · rw [List.drop_eq_getElem_cons hr, hget, hdrop, List.cons_append]
        · have hpieces : piecesAt candidates (position :: more) =
              p :: piecesAt candidates more := by
            rw [piecesAt, List.filterMap_cons, hp]
            rfl
          rw [hscope, if_pos accepted, hpieces]
          rfl

theorem searchSlots_cases (predicates : List Predicate) (candidates : List Piece) (s : Scope) :
    (∃ chosen, searchSlots predicates candidates s =
        (some chosen, (search predicates).bound (piecesAt candidates chosen) s) ∧
        (search predicates).Fits candidates chosen) ∨
      searchSlots predicates candidates s = (none, s) := by
  unfold searchSlots
  split
  · have hundo : Undoes (slotAccepts predicates candidates) :=
      ask_tests predicates candidates ▸ Predicate.tests.pop_ask predicates candidates
    cases hr : assign predicates.length candidates.length (slotAccepts predicates candidates) s with
    | mk found t =>
      cases found with
      | none => exact .inr (by rw [eq_of_assign_none _ hundo _ _ _ _ hr])
      | some chosen =>
        obtain ⟨hlen, hnodup, -, hpath⟩ := path_of_assign_some _ hundo _ _ _ _ _ hr
        obtain ⟨taken, rest, hdrop, htakes, hscope⟩ := takes_of_path hpath
        have hrest : rest = [] := by
          have hl := congrArg List.length hdrop
          rw [List.drop_zero, List.length_append, htakes.length_eq] at hl
          exact List.length_eq_zero_iff.1 (by omega)
        rw [hrest, List.append_nil, List.drop_zero] at hdrop
        subst hdrop
        exact .inl ⟨chosen, by rw [hscope]; rfl, hnodup, htakes⟩
  · exact .inr rfl

theorem testSearch_cases (predicates : List Predicate) (candidates : List Piece) (s : Scope) :
    (∃ chosen, testSearch predicates candidates s =
        (.success chosen, (search predicates).bound (piecesAt candidates chosen) s) ∧
        (search predicates).Fits candidates chosen) ∨
      testSearch predicates candidates s = (.pending, s) ∨
      testSearch predicates candidates s = (.failure, s) := by
  unfold testSearch
  rcases searchSlots_cases predicates candidates s with ⟨chosen, h, hfits⟩ | h
  · rw [h]
    exact .inl ⟨chosen, rfl, hfits⟩
  · rw [h]
    dsimp only
    rw [searchCandidates_eq, PieceTests.searchCandidates_eq]
    cases Predicate.tests.firstExtension predicates candidates with
    | none => exact .inr (.inr rfl)
    | some placed => exact .inr (.inl rfl)

/-- **A test of a pattern**, of either kind. -/
theorem test_cases (m : Matcher) (candidates : List Piece) (s : Scope) :
    (∃ chosen, m.test candidates s = (.success chosen, m.bound (piecesAt candidates chosen) s) ∧
        m.Fits candidates chosen) ∨
      m.test candidates s = (.pending, s) ∨ m.test candidates s = (.failure, s) := by
  cases m with
  | search predicates => exact testSearch_cases predicates candidates s
  | literal pattern =>
    cases h : testLiteral pattern candidates with
    | success chosen =>
      exact .inl ⟨chosen, by rw [test, h]; rfl, fits_of_testLiteral pattern candidates chosen h⟩
    | pending => exact .inr (.inl (by rw [test, h]))
    | failure => exact .inr (.inr (by rw [test, h]))

end Matcher

end HexRules
