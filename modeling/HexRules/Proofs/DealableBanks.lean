import HexRules.Proofs.OuterRing

/-!
# Banks that can be dealt

A bank that fits is dealt by draws that fill the board, unless no piece can be the first.  A first
piece lies beside the centre piece, or alone between the middle and the outermost ring; so there is
none on a board of one ring at most without a centre piece, and every attempt there fails whatever
is drawn.

    radius ≤ 1 → Keeps radius Bare                                                (keeps_bare)
    bank ≠ [] → radius ≤ 1 → (attempt bank radius none tries g).1 = none          (attempt_eq_none)
-/

namespace HexRules

open Coord

namespace Deal

/-- Some draws give a board. -/
def Dealable {α : Type} (bank : List α) (radius : Nat) (center : Option α) (maxAttempts : Int) :
    Prop :=
  ∃ (γ : Type) (_ : Generator γ) (_ : LawfulGenerator γ) (g : γ) (dealt : Dealt α),
    (deal bank radius center maxAttempts g).1 = .ok dealt

variable {α γ : Type}

/-! ## No first piece -/

/-- There is no piece on the board. -/
def Bare (b : Board α) : Prop := ∀ c, b.get? c = none

theorem keeps_bare {radius : Nat} (hradius : radius ≤ 1) :
    Keeps radius (Bare : Board α → Prop) := by
  refine ⟨?_⟩
  intro b b' c piece needsNeighbor halone hinsert hb
  obtain ⟨-, -, hbeside, -⟩ := Board.tryInsert_eq_some_iff.1 hinsert
  have hneeds : needsNeighbor = true := Bool.of_not_eq_false fun hfalse => by
    have hinner := halone hfalse
    omega
  obtain ⟨d, -, hpiece⟩ := (b.hasNeighbor_iff c).1 (hbeside hneeds)
  rw [hb d] at hpiece
  exact absurd hpiece Bool.false_ne_true

variable [Generator γ] [LawfulGenerator γ]

theorem attempt_eq_none {bank : List α} (hbank : bank ≠ []) {radius : Nat} (hradius : radius ≤ 1)
    (tries : Nat) (g : γ) : (attempt bank radius none tries g).1 = none := by
  cases hattempt : (attempt bank radius none tries g).1 with
  | none => rfl
  | some b =>
    have hshuffle : Generator.Reorders γ := Generator.reorders_of_lawful γ
    have hbare : Bare b := (keeps_bare hradius).attempt LawfulGenerator.random_lt_one hshuffle
      (fun c => by rw [get?_firstBoard, ite_self]) hattempt
    obtain ⟨piece, hpiece⟩ := List.exists_mem_of_ne_nil bank hbank
    obtain ⟨c, hc⟩ := (b.mem_pieces_iff piece).1
      ((laidOut_of_attempt hshuffle hattempt).pieces_perm.mem_iff.2 hpiece)
    rw [hbare c] at hc
    cases hc

theorem deal_eq_gaveUp {bank : List α} (hbank : bank ≠ []) {radius : Nat} (hradius : radius ≤ 1)
    (hfits : (bank.length : Int) ≤ capacity radius (none : Option α)) (maxAttempts : Int) (g : γ) :
    (deal bank radius none maxAttempts g).1 = .error (.gaveUp bank.length maxAttempts) := by
  rcases deal_cases bank radius none maxAttempts g with
    ⟨hmany, -⟩ | ⟨-, dealt, -, g', hattempt⟩ | ⟨-, hgaveUp⟩
  · exact absurd hfits (Int.not_le.2 hmany)
  · rw [attempt_eq_none hbank hradius] at hattempt
    cases hattempt
  · exact hgaveUp

end Deal

open Deal

/-- **Which banks can be dealt.**  A bank that fits can be dealt, even to the last free cell and in
a single attempt with a single try, if it is empty, or there is a centre piece, or the radius is two
or more.  Otherwise no piece can be the first, and a deal gives up whatever is drawn. -/
theorem dealable_iff {α : Type} (bank : List α) (radius : Nat) (center : Option α)
    (maxAttempts : Int) (hfits : (bank.length : Int) ≤ capacity radius center)
    (hmax : 1 ≤ maxAttempts) :
    (Dealable bank radius center maxAttempts ↔
      bank = [] ∨ center.isSome = true ∨ 2 ≤ radius) ∧
    (¬ Dealable bank radius center maxAttempts →
      ∀ {γ : Type} [Generator γ] [LawfulGenerator γ] (g : γ),
        (deal bank radius center maxAttempts g).1 = .error (.gaveUp bank.length maxAttempts)) := by
  have hdealable : bank = [] ∨ center.isSome = true ∨ 2 ≤ radius →
      Dealable bank radius center maxAttempts := by
    intro hseed
    obtain ⟨dealt, hdealt⟩ := exists_deal FairScript.alternates (g := FairScript.alternating)
      ⟨rfl, rfl, rfl⟩ hmax hfits hseed
    exact ⟨FairScript, inferInstance, inferInstance, FairScript.alternating, dealt, hdealt⟩
  have hgaveUp : ¬ (bank = [] ∨ center.isSome = true ∨ 2 ≤ radius) →
      ∀ {γ : Type} [Generator γ] [LawfulGenerator γ] (g : γ),
        (deal bank radius center maxAttempts g).1 = .error (.gaveUp bank.length maxAttempts) := by
    intro hnone γ _ _ g
    rw [not_or, not_or, Bool.not_eq_true, Option.isSome_eq_false_iff, Option.isNone_iff_eq_none]
      at hnone
    obtain ⟨hbank, rfl, hradius⟩ := hnone
    exact deal_eq_gaveUp hbank (by omega) hfits maxAttempts g
  refine ⟨⟨?_, hdealable⟩, fun hnot => hgaveUp (mt hdealable hnot)⟩
  rintro ⟨γ, _, _, g, dealt, hdealt⟩
  by_contra hnone
  rw [hgaveUp hnone] at hdealt
  cases hdealt

namespace Relay

/-- Nineteen fires fill a board of radius two; a single one finds no cell on one of radius one. -/
theorem fires_dealable :
    ((List.replicate 19 "fire").length : Int) ≤ capacity (2 : Nat) (none : Option String) ∧
      Dealable (List.replicate 19 "fire") 2 none 1 ∧
      (["fire"].length : Int) ≤ capacity (1 : Nat) (none : Option String) ∧
      ¬ Dealable ["fire"] 1 none 1 := by
  have hfull : ((List.replicate 19 "fire").length : Int) ≤
      capacity (2 : Nat) (none : Option String) := by decide
  have hone : (["fire"].length : Int) ≤ capacity (1 : Nat) (none : Option String) := by decide
  refine ⟨hfull, ?_, hone, ?_⟩
  · exact (dealable_iff _ 2 none 1 hfull (by decide)).1.2 (.inr (.inr (Nat.le_refl 2)))
  · rw [(dealable_iff ["fire"] 1 none 1 hone (by decide)).1]
    decide

/-- A board without rings has room for a piece, but the middle lies beside no other cell. -/
theorem lone_fire_undealable :
    (["fire"].length : Int) ≤ capacity (0 : Nat) (none : Option String) ∧
      1 ≤ defaultAttempts ∧ ¬ Dealable ["fire"] 0 none defaultAttempts := by
  have hfits : (["fire"].length : Int) ≤ capacity (0 : Nat) (none : Option String) := by decide
  refine ⟨hfits, by decide, ?_⟩
  rintro ⟨γ, _, _, g, dealt, hdealt⟩
  have hgaveUp :=
    deal_eq_gaveUp (List.cons_ne_nil "fire" []) (Nat.zero_le 1) hfits defaultAttempts g
  cases hgaveUp.symm.trans hdealt

end Relay

end HexRules
