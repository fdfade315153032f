import HexRules.Proofs.SearchPattern

/-!
# Outcomes of searched patterns

A predicate accepts a piece whatever is bound, so the outcome of a search depends on the slots and
the candidates only: `outcome slots candidates` succeeds with the least assignment of candidates to
slots, and is pending when there is only an assignment of slots to candidates.

    (testSearch slots candidates s).1 = outcome slots candidates         (testSearch_fst)
    (firstMatch slots candidates).isSome ↔ some choice fits              (isSome_firstMatch_iff)
-/

namespace HexRules

namespace Matcher

open Assignment

/-- Does a slot accept the candidate at a position? -/
def takes (slots : List Predicate) (candidates : List Piece) (slot position : Nat) : Bool :=
  match slots[slot]?, candidates[position]? with
  | some q, some p => q.accepts p
  | _, _ => false

/-- The least choice of a candidate for every slot. -/
def firstMatch (slots : List Predicate) (candidates : List Piece) : Option (List Nat) :=
  least (takes slots candidates) candidates.length slots.length []

/-- The least choice of a slot for every candidate. -/
def firstExtension (slots : List Predicate) (candidates : List Piece) : Option (List Nat) :=
  least (fun position slot => takes slots candidates slot position) slots.length
    candidates.length []

/-- What comparing slots with candidates answers. -/
def outcome (slots : List Predicate) (candidates : List Piece) : Outcome (List Nat) :=
  match firstMatch slots candidates with
  | some chosen => .success chosen
  | none => if (firstExtension slots candidates).isSome then .pending else .failure

/-! ## Searches -/

theorem takes_eq (slots : List Predicate) (candidates : List Piece) :
    takes slots candidates = Predicate.tests.takes slots candidates := by
  funext slot position
  unfold takes PieceTests.takes
  cases slots[slot]? with
  | none => rfl
  | some q => cases candidates[position]? <;> rfl

theorem testSearch_fst (slots : List Predicate) (candidates : List Piece) (s : Scope) :
    (testSearch slots candidates s).1 = outcome slots candidates := by
  have hmatch : firstMatch slots candidates = Predicate.tests.firstMatch slots candidates := by
    rw [firstMatch, takes_eq]
    rfl
  have hextension :
      firstExtension slots candidates = Predicate.tests.firstExtension slots candidates := by
    rw [firstExtension, takes_eq]
    rfl
  rw [testSearch_eq, outcome, hmatch, hextension]
  rcases Predicate.tests.search_cases slots candidates s with
    ⟨chosen, t, hfound, hend⟩ | ⟨hnone, hend⟩
  · rw [hend, hfound]
  · rw [hend, hnone]

/-! ## Choices that fit -/

theorem takes_iff (slots : List Predicate) (candidates : List Piece) (slot position : Nat) :
    takes slots candidates slot position = true ↔
      ∃ q p, slots[slot]? = some q ∧ candidates[position]? = some p ∧ q.accepts p = true := by
  rw [takes_eq]
  exact Predicate.tests.takes_iff slots candidates slot position

/-- To fit is to be an assignment of candidates to slots. -/
theorem fits_iff (m : Matcher) (candidates : List Piece) (chosen : List Nat) :
    m.Fits candidates chosen ↔
      Completes (takes m.slots candidates) candidates.length [] chosen ∧
        chosen.length = m.slots.length := by
  rw [completes_iff_forall₂ (takes_iff m.slots candidates)]
  exact ⟨fun h => ⟨h.nodup, h.takes⟩, fun h => ⟨h.1, h.2⟩⟩

theorem isSome_firstMatch_iff (m : Matcher) (candidates : List Piece) :
    (firstMatch m.slots candidates).isSome = true ↔ ∃ chosen, m.Fits candidates chosen := by
  rw [firstMatch, isSome_least_iff]
  exact exists_congr fun chosen => (fits_iff m candidates chosen).symm

end Matcher

end HexRules
