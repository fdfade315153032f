import HexRules.Hex.Deal
import HexRules.Proofs.NumberOrder
import Mathlib.Algebra.Order.Field.Basic
import Mathlib.Tactic.FieldSimp
import Mathlib.Tactic.Linarith

/-!
# Rounded quotients

The floating-point number nearest to a quotient of at most one is a whole number of units, each of
them one over a power of two.  So one is met exactly, and no other quotient is exceeded by more than
half a unit.

    num ≤ den → nearestRatio num den = roundDiv (num * 2 ^ k) den / 2 ^ k for some k ≥ 52
                                                                         (exists_nearestRatio)
    nearestRatio n n = 1                                                 (nearestRatio_self)
    num ≤ den → nearestRatio num den ≤ num / den + 1 / 2 ^ 53            (nearestRatio_le)
-/

namespace HexRules

theorem roundDiv_mul_left (den q : Nat) (h : 0 < den) : roundDiv (den * q) den = q := by
  simp [roundDiv, Nat.mul_div_cancel_left q h, h]

namespace Binary64

/-- The value of a mantissa with `k` bits behind the point. -/
theorem toRat?_finite (m k : Nat) :
    (finite false m (-(k : Int))).toRat? = some ((m : Rat) / 2 ^ k) := by
  rw [toRat?_eq, zpow_neg, zpow_natCast, signFactor, if_neg Bool.false_ne_true, one_mul,
    div_eq_mul_inv]

/-- A quotient of at most one has the bits of its mantissa behind the point. -/
theorem unitExponent_le {num den : Nat} (hnum : 0 < num) (h : num ≤ den) :
    unitExponent num den ≤ -52 := by
  have hlog : Nat.log2 num ≤ Nat.log2 den := by
    rw [Nat.le_log2 (by omega)]
    exact (Nat.log2_self_le (by omega)).trans h
  have hmin : minExponent ≤ -52 := by decide
  unfold unitExponent
  simp only
  split <;> split <;> omega

end Binary64

/-- A mantissa that is rounded up to its bound is halved, and its unit doubled. -/
theorem exists_nearestRatio {num den : Nat} (hnum : 0 < num) (h : num ≤ den) :
    ∃ k ≥ 52, nearestRatio num den = (roundDiv (num * Nat.pow 2 k) den : Rat) / 2 ^ k := by
  obtain ⟨j, hj, hexponent⟩ : ∃ j ≥ 51, Binary64.unitExponent num den = -((j + 1 : Nat) : Int) := by
    have hle := Binary64.unitExponent_le hnum h
    exact ⟨(-Binary64.unitExponent num den - 1).toNat, by omega, by omega⟩
  refine ⟨j + 1, by omega, ?_⟩
  have hscale : scaleRatio num den (-((j + 1 : Nat) : Int)) = (num * Nat.pow 2 (j + 1), den) := rfl
  have hmax : Binary64.maxExponent = 971 := rfl
  unfold nearestRatio Binary64.ofRatio
  rw [if_neg (Nat.ne_of_gt hnum)]
  simp only [hexponent, hscale]
  generalize roundDiv (num * Nat.pow 2 (j + 1)) den = m
  by_cases hcarry : m = Binary64.mantissaBound
  · have hnext : -((j + 1 : Nat) : Int) + 1 = -(j : Int) := by omega
    have hhalf : Binary64.mantissaBound / 2 ≠ 0 := by decide
    have hdouble : (Binary64.mantissaBound : Rat) = (Binary64.mantissaBound / 2 : Nat) * 2 := by
      have hnat : Binary64.mantissaBound = Binary64.mantissaBound / 2 * 2 := by decide
      exact_mod_cast hnat
    simp only [if_pos hcarry, hnext]
    rw [if_neg (by omega), if_neg hhalf, Binary64.toRat?_finite, hcarry, hdouble, pow_succ,
      mul_div_mul_right _ _ two_ne_zero]
    rfl
  · simp only [if_neg hcarry]
    rw [if_neg (by omega)]
    split
    · rename_i hzero
      have hvalue : (Binary64.finite false 0 0).toRat? = some (((0 : Nat) : Rat) / 2 ^ 0) :=
        Binary64.toRat?_finite 0 0
      rw [hvalue, hzero]
      simp
    · rw [Binary64.toRat?_finite]
      rfl

theorem nearestRatio_self {n : Nat} (hn : 0 < n) : nearestRatio n n = 1 := by
  obtain ⟨k, -, hk⟩ := exists_nearestRatio hn n.le_refl
  have hpow : ((Nat.pow 2 k : Nat) : Rat) = 2 ^ k := by norm_num
  rw [hk, roundDiv_mul_left n _ hn, hpow, div_self (by positivity)]

theorem nearestRatio_nonneg {num den : Nat} (hnum : 0 < num) (h : num ≤ den) :
    0 ≤ nearestRatio num den := by
  obtain ⟨k, -, hk⟩ := exists_nearestRatio hnum h
  rw [hk]
  positivity

/-- Half a unit up at most. -/
theorem nearestRatio_le {num den : Nat} (hnum : 0 < num) (h : num ≤ den) :
    nearestRatio num den ≤ (num : Rat) / den + 1 / 2 ^ 53 := by
  obtain ⟨k, hk, hvalue⟩ := exists_nearestRatio hnum h
  have hden : (0 : Rat) < den := by exact_mod_cast Nat.lt_of_lt_of_le hnum h
  have hround := two_mul_roundDiv_le (num * Nat.pow 2 k) den (Nat.lt_of_lt_of_le hnum h)
  generalize roundDiv (num * Nat.pow 2 k) den = m at hvalue hround
  have hround' : 2 * ((den : Rat) * m) ≤ 2 * (num * 2 ^ k) + den := by exact_mod_cast hround
  have hpow : (2 : Rat) ^ 52 ≤ 2 ^ k := pow_le_pow_right₀ one_le_two hk
  rw [hvalue]
  calc (m : Rat) / 2 ^ k ≤ (num : Rat) / den + 1 / (2 * 2 ^ k) := by
        rw [div_add_div _ _ hden.ne' (by positivity),
          div_le_div_iff₀ (by positivity) (by positivity)]
        nlinarith
    _ ≤ (num : Rat) / den + 1 / 2 ^ 53 := by
        gcongr
        linarith

end HexRules
