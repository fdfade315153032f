/-!
# Generators

Dealing draws from any source of randomness with three operations.  `LawfulGenerator` states what
a source keeps to: a shuffle only reorders, a number drawn below `n` is below `n`, and a random
number lies between 0 and 1.

    (shuffleDown draw items g).1.Perm items                              (shuffleDown_perm)
-/

namespace HexRules

class Generator (γ : Type) where
  /-- A number from 0 up to, but not including, 1. -/
  random : γ → Rat × γ
  /-- A natural number below a positive one. -/
  below : Nat → γ → Nat × γ
  /-- The items in another order. -/
  shuffle : {α : Type} → List α → γ → List α × γ

/-- What a source of randomness keeps to. -/
class LawfulGenerator (γ : Type) [Generator γ] : Prop where
  random_nonneg : ∀ g : γ, 0 ≤ (Generator.random g).1
  random_lt_one : ∀ g : γ, (Generator.random g).1 < 1
  below_lt : ∀ (n : Nat) (g : γ), 0 < n → (Generator.below n g).1 < n
  shuffle_perm : ∀ {α : Type} (items : List α) (g : γ), (Generator.shuffle items g).1.Perm items

namespace Generator

variable {γ : Type}

/-- Swap the last item with one drawn from the first `i + 1`, then go on with the items before it.
`draw` gives a number that is at most `i`. -/
def swapDown {α : Type} (draw : Nat → γ → Nat × γ) : Nat → Array α → γ → Array α × γ
  | 0, items, g => (items, g)
  | i + 1, items, g =>
    let drawn := draw (i + 1) g
    swapDown draw i (items.swapIfInBounds (i + 1) drawn.1) drawn.2

/-- Shuffle from the last item down. -/
def shuffleDown {α : Type} (draw : Nat → γ → Nat × γ) (items : List α) (g : γ) : List α × γ :=
  let result := swapDown draw (items.length - 1) items.toArray g
  (result.1.toList, result.2)

/-! ## Lemmas -/

theorem swapIfInBounds_perm {α : Type} (items : Array α) (i j : Nat) :
    (items.swapIfInBounds i j).toList.Perm items.toList := by
  unfold Array.swapIfInBounds
  split
  · split
    · exact (Array.swap_perm _ _).toList
    · exact List.Perm.refl _
  · exact List.Perm.refl _

theorem swapDown_perm {α : Type} (draw : Nat → γ → Nat × γ) (i : Nat) (items : Array α) (g : γ) :
    (swapDown draw i items g).1.toList.Perm items.toList := by
  induction i generalizing items g with
  | zero => exact List.Perm.refl _
  | succ i ih => exact (ih _ _).trans (swapIfInBounds_perm items _ _)

/-- Whatever is drawn, a shuffle only reorders. -/
theorem shuffleDown_perm {α : Type} (draw : Nat → γ → Nat × γ) (items : List α) (g : γ) :
    (shuffleDown draw items g).1.Perm items :=
  swapDown_perm draw _ items.toArray g

theorem mkRat_nonneg (n d : Nat) : 0 ≤ mkRat n d := by
  rw [← Rat.divInt_ofNat]
  exact Rat.divInt_nonneg (Int.natCast_nonneg n) (Int.natCast_nonneg d)

theorem mkRat_lt_one (n d : Nat) (h : n < d) : mkRat n d < 1 := by
  have hd : (0 : Rat) < (d : Rat) := Rat.natCast_pos.2 (Nat.zero_lt_of_lt h)
  rw [Rat.mkRat_eq_div, Rat.div_lt_iff hd, Rat.one_mul]
  exact_mod_cast h

end Generator

end HexRules
