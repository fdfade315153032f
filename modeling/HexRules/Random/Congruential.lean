import HexRules.Random.Generator

/-!
# A linear congruential generator

The state is one 64-bit word; each draw gives the upper 31 bits of the next state.

    g.draw.1 < 2 ^ 31                                                    (draw_lt)
-/

namespace HexRules

structure Congruential where
  state : UInt64

namespace Congruential

/-! ## Algorithm -/

def ofSeed (seed : Int) : Congruential := ⟨UInt64.ofNat (seed % Nat.pow 2 64).toNat⟩

/-- How many different draws there are. -/
def drawCount : Nat := Nat.pow 2 31

def draw (g : Congruential) : Nat × Congruential :=
  let state := g.state * 6364136223846793005 + 1442695040888963407
  ((state >>> 33).toNat, ⟨state⟩)

/-- A draw reduced below `n`. -/
def drawBelow (n : Nat) (g : Congruential) : Nat × Congruential :=
  let drawn := g.draw
  (drawn.1 % n, drawn.2)

instance : Generator Congruential where
  random g :=
    let drawn := g.draw
    (mkRat drawn.1 drawCount, drawn.2)
  below := drawBelow
  shuffle items g := Generator.shuffleDown (fun i => drawBelow (i + 1)) items g

/-! ## Lemmas -/

theorem draw_lt (g : Congruential) : g.draw.1 < drawCount := by
  have h : ∀ x : UInt64, (x >>> 33).toNat < drawCount := by
    intro x
    have hx := x.toNat_lt
    rw [UInt64.toNat_shiftRight, show (33 : UInt64).toNat % 64 = 33 from rfl,
      Nat.shiftRight_eq_div_pow, show drawCount = 2147483648 from rfl]
    omega
  exact h _

instance : LawfulGenerator Congruential where
  random_nonneg _ := Generator.mkRat_nonneg _ _
  random_lt_one g := Generator.mkRat_lt_one _ _ (draw_lt g)
  below_lt _ _ h := Nat.mod_lt _ h
  shuffle_perm items g := Generator.shuffleDown_perm _ items g

end Congruential

end HexRules
