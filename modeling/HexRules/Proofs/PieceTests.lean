import HexRules.Proofs.LeastAssignment
import HexRules.Proofs.Pattern

/-!
# Searches that ask tests

The search of a pattern asks of its slots whether they accept a piece.  All that matters of a test is
that it answers by the piece alone and does nothing to the scope but bind names in the current frame:
then an attempt that is undone leaves no trace, and which choice is found is up to what the tests
accept.

    k.searchSlots slots candidates s = (k.firstMatch slots candidates, t), and t = s if that is none
                                                                         (searchSlots_spec)
    k.searchCandidates slots candidates s = (k.firstExtension slots candidates, s)
                                                                         (searchCandidates_eq)
    testSearch is the search that asks predicates                        (testSearch_eq)
-/

namespace HexRules

namespace Assignment

/-- Attempts that only add frames keep what was there. -/
theorem extends_of_path {accepts : Nat → Nat → Scope → Bool × Scope}
    (hextends : ∀ row column (s : Scope), s.Extends (accepts row column s.push).2) {row : Nat}
    {columns : List Nat} {s t : Scope} (h : Path accepts row columns s t) : s.Extends t := by
  induction h with
  | done row s => exact .refl s
  | next accepted onward ih => exact (hextends _ _ _).trans ih

/-- A search that runs in a frame of its own leaves nothing behind. -/
theorem frame_assign_snd {accepts : Nat → Nat → Scope → Bool × Scope} (hundo : Undoes accepts)
    (hextends : ∀ row column (s : Scope), s.Extends (accepts row column s.push).2)
    (rows columns : Nat) (s : Scope) : (s.frame (assign rows columns accepts)).2 = s := by
  apply Scope.frame_eq_self
  cases hr : assign rows columns accepts s.push with
  | mk found t =>
    cases found with
    | none =>
      rw [eq_of_assign_none _ hundo _ _ _ _ hr]
      exact (Scope.Extends.refl s).push
    | some chosen =>
      obtain ⟨-, -, -, hpath⟩ := path_of_assign_some _ hundo _ _ _ _ _ hr
      exact (Scope.Extends.refl s).push.trans (extends_of_path hextends hpath)

end Assignment

open Assignment

/-- A kind of tests of a piece.  What a test answers depends on the piece only, and all that it does
to the scope is bind names in the current frame. -/
structure PieceTests (α : Type) where
  run : α → Piece → Scope → Bool × Scope
  accepts : α → Piece → Bool
  answer_eq : ∀ a p s, (run a p s).1 = accepts a p
  exists_bindAll : ∀ a p s, ∃ bs, (run a p s).2 = s.bindAll bs

namespace PieceTests

variable {α : Type} (k : PieceTests α)

/-- What the test of a slot answers of the candidate at a position. -/
def ask (slots : List α) (candidates : List Piece) (slot position : Nat) (s : Scope) :
    Bool × Scope :=
  match slots[slot]?, candidates[position]? with
  | some a, some p => k.run a p s
  | _, _ => (false, s)

/-- Search for a candidate for every slot. -/
def searchSlots (slots : List α) (candidates : List Piece) (s : Scope) :
    Option (List Nat) × Scope :=
  if slots.length ≤ candidates.length then
    assign slots.length candidates.length (k.ask slots candidates) s
  else (none, s)

/-- Search for a slot for every candidate, in a frame of its own. -/
def searchCandidates (slots : List α) (candidates : List Piece) (s : Scope) :
    Option (List Nat) × Scope :=
  if candidates.length ≤ slots.length then
    s.frame (assign candidates.length slots.length fun position slot =>
      k.ask slots candidates slot position)
  else (none, s)

/-- The search of a pattern, whatever the tests of its slots are. -/
def search (slots : List α) (candidates : List Piece) (s : Scope) : Outcome (List Nat) × Scope :=
  match k.searchSlots slots candidates s with
  | (some chosen, s) => (.success chosen, s)
  | (none, s) =>
    match k.searchCandidates slots candidates s with
    | (some _, s) => (.pending, s)
    | (none, s) => (.failure, s)

/-- Does a slot accept the candidate at a position? -/
def takes (slots : List α) (candidates : List Piece) (slot position : Nat) : Bool :=
  match slots[slot]?, candidates[position]? with
  | some a, some p => k.accepts a p
  | _, _ => false

/-- The least choice of a candidate for every slot. -/
def firstMatch (slots : List α) (candidates : List Piece) : Option (List Nat) :=
  least (k.takes slots candidates) candidates.length slots.length []

/-- The least choice of a slot for every candidate. -/
def firstExtension (slots : List α) (candidates : List Piece) : Option (List Nat) :=
  least (fun position slot => k.takes slots candidates slot position) slots.length
    candidates.length []

variable (slots : List α) (candidates : List Piece)

theorem takes_iff (slot position : Nat) :
    k.takes slots candidates slot position = true ↔
      ∃ a p, slots[slot]? = some a ∧ candidates[position]? = some p ∧ k.accepts a p = true := by
  unfold takes
  cases slots[slot]? with
  | none => simp
  | some a => cases candidates[position]? <;> simp

theorem takes_flip_iff (position slot : Nat) :
    k.takes slots candidates slot position = true ↔
      ∃ p a, candidates[position]? = some p ∧ slots[slot]? = some a ∧ k.accepts a p = true := by
  rw [takes_iff]
  constructor
  · rintro ⟨a, p, ha, hp, haccepts⟩
    exact ⟨p, a, hp, ha, haccepts⟩
  · rintro ⟨p, a, hp, ha, haccepts⟩
    exact ⟨a, p, ha, hp, haccepts⟩

/-! ### What is asked -/

theorem ask_fst (slot position : Nat) (s : Scope) :
    (k.ask slots candidates slot position s).1 = k.takes slots candidates slot position := by
  unfold ask takes
  cases slots[slot]? with
  | none => rfl
  | some a =>
    cases candidates[position]? with
    | none => rfl
    | some p => exact k.answer_eq a p s

theorem exists_bindAll_ask (slot position : Nat) (s : Scope) :
    ∃ bs, (k.ask slots candidates slot position s).2 = s.bindAll bs := by
  unfold ask
  cases slots[slot]? with
  | none => exact ⟨[], rfl⟩
  | some a =>
    cases candidates[position]? with
    | none => exact ⟨[], rfl⟩
    | some p => exact k.exists_bindAll a p s

/-- What has been bound goes with the frame of the attempt. -/
theorem pop_ask (slot position : Nat) (s : Scope) :
    (k.ask slots candidates slot position s.push).2.pop = s := by
  obtain ⟨bs, hbs⟩ := k.exists_bindAll_ask slots candidates slot position s.push
  rw [hbs, Scope.pop_bindAll _ _ (by rw [Scope.depth_push]; omega), Scope.pop_push]

theorem extends_ask (slot position : Nat) (s : Scope) :
    s.Extends (k.ask slots candidates slot position s.push).2 := by
  obtain ⟨bs, hbs⟩ := k.exists_bindAll_ask slots candidates slot position s.push
  rw [hbs]
  exact (Scope.Extends.refl s).push.bindAll (by rw [Scope.depth_push]; omega) bs

/-! ### How a search ends -/

/-- A search for slots that finds nothing is undone. -/
theorem searchSlots_spec (s : Scope) :
    ∃ t, k.searchSlots slots candidates s = (k.firstMatch slots candidates, t) ∧
      (k.firstMatch slots candidates = none → t = s) := by
  unfold searchSlots firstMatch
  split
  · have hfst := assign_fst (k.ask_fst slots candidates) slots.length candidates.length s
    cases hr : assign slots.length candidates.length (k.ask slots candidates) s with
    | mk found t =>
      rw [hr] at hfst
      refine ⟨t, Prod.ext hfst rfl, fun hnone => ?_⟩
      have hfound : found = none := hfst.trans hnone
      rw [hfound] at hr
      exact eq_of_assign_none _ (k.pop_ask slots candidates) _ _ _ _ hr
  · rename_i hlen
    exact ⟨s, by rw [least_eq_none_of_lt (by omega)], fun _ => rfl⟩

/-- A search for candidates leaves the scope as it was. -/
theorem searchCandidates_eq (s : Scope) :
    k.searchCandidates slots candidates s = (k.firstExtension slots candidates, s) := by
  unfold searchCandidates firstExtension
  split
  · have hasks : Asks (fun position slot => k.ask slots candidates slot position)
        fun position slot => k.takes slots candidates slot position :=
      fun position slot t => k.ask_fst slots candidates slot position t
    refine Prod.ext (assign_fst hasks _ _ s.push) ?_
    exact frame_assign_snd
      (fun position slot t => k.pop_ask slots candidates slot position t)
      (fun position slot t => k.extends_ask slots candidates slot position t) _ _ s
  · rename_i hlen
    rw [least_eq_none_of_lt (by omega)]

theorem search_cases (s : Scope) :
    (∃ chosen t, k.firstMatch slots candidates = some chosen ∧
        k.search slots candidates s = (.success chosen, t)) ∨
      k.firstMatch slots candidates = none ∧
        k.search slots candidates s =
          (if (k.firstExtension slots candidates).isSome then .pending else .failure, s) := by
  obtain ⟨t, hslots, hundone⟩ := k.searchSlots_spec slots candidates s
  unfold search
  rw [hslots]
  cases hmatch : k.firstMatch slots candidates with
  | some chosen => exact .inl ⟨chosen, t, rfl, rfl⟩
  | none =>
    cases hundone hmatch
    refine .inr ⟨rfl, ?_⟩
    dsimp only
    rw [searchCandidates_eq]
    cases k.firstExtension slots candidates <;> rfl

end PieceTests

/-- The predicates of the library are such tests. -/
def Predicate.tests : PieceTests Predicate where
  run := test
  accepts := accepts
  answer_eq q p s := congrArg Prod.fst (q.test_eq p s)
  exists_bindAll q p s := by
    rw [q.test_eq]
    cases q.accepts p with
    | true => exact ⟨q.binds p, rfl⟩
    | false => exact ⟨[], rfl⟩

namespace Matcher

variable (predicates : List Predicate) (candidates : List Piece)

theorem ask_tests :
    Predicate.tests.ask predicates candidates = slotAccepts predicates candidates := by
  funext slot position s
  unfold PieceTests.ask slotAccepts
  cases predicates[slot]? with
  | none => rfl
  | some q => cases candidates[position]? <;> rfl

theorem searchSlots_eq (s : Scope) :
    searchSlots predicates candidates s = Predicate.tests.searchSlots predicates candidates s := by
  rw [PieceTests.searchSlots, ask_tests]
  rfl

theorem searchCandidates_eq (s : Scope) : searchCandidates predicates candidates s =
    Predicate.tests.searchCandidates predicates candidates s := by
  rw [PieceTests.searchCandidates, ask_tests]
  rfl

/-- A pattern of predicates is searched by asking them. -/
theorem testSearch_eq (s : Scope) :
    testSearch predicates candidates s = Predicate.tests.search predicates candidates s := by
  have hslots := searchSlots_eq predicates candidates s
  unfold testSearch PieceTests.search
  cases hr : searchSlots predicates candidates s with
  | mk found t =>
    rw [hr] at hslots
    cases found with
    | some chosen => simp only [← hslots]
    | none =>
      have hplaced := searchCandidates_eq predicates candidates t
      cases hr' : searchCandidates predicates candidates t with
      | mk placed u =>
        rw [hr'] at hplaced
        cases placed <;> simp only [← hslots, ← hplaced, hr']

end Matcher

end HexRules
