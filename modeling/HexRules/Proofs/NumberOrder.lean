import HexRules.Number.Basic
import Mathlib.Algebra.Order.Field.Rat
import Mathlib.Order.WithBot
import Mathlib.Tactic.NormNum

/-!
# The exact values of numbers

A finite floating-point number is a mantissa times a power of two, so it has an exact value like an
integer; an infinity lies at one end of all these values.  Numbers are compared by their values,
whatever the form.

    (finite negative m e).toRat? = some (± m * 2 ^ e)                    (toRat?_eq)
    m.same n = true ↔ m.value = n.value                                  (same_iff)
    m.lt n = true ↔ m.value < n.value                                    (lt_iff)
    n.toInt? = some i ↔ n.value = i                                      (toInt?_eq_some_iff)
-/

namespace HexRules

theorem scaleRatio_div (num den : Nat) (e : Int) :
    ((scaleRatio num den e).1 : ℚ) / (scaleRatio num den e).2 = num / den / 2 ^ e := by
  cases e with
  | ofNat k =>
    rw [scaleRatio, Int.ofNat_eq_natCast, zpow_natCast, div_div]
    norm_num
  | negSucc k =>
    rw [scaleRatio, zpow_negSucc, div_inv_eq_mul, div_mul_eq_mul_div]
    norm_num

/-- The factor that a sign stands for. -/
def signFactor (negative : Bool) : ℚ := if negative then -1 else 1

theorem Binary64.toRat?_eq (negative : Bool) (m : Nat) (e : Int) :
    (finite negative m e).toRat? = some (signFactor negative * m * 2 ^ e) := by
  have hmagnitude : mkRat (scaleRatio m 1 (-e)).1 (scaleRatio m 1 (-e)).2 = (m : ℚ) * 2 ^ e := by
    have hscale := scaleRatio_div m 1 (-e)
    rw [Nat.cast_one, div_one, zpow_neg, div_inv_eq_mul] at hscale
    rw [Rat.mkRat_eq_div, ← hscale, Int.cast_natCast]
  simp only [toRat?, hmagnitude]
  cases negative <;> simp [signFactor]

namespace Number

/-- The exact value of a number, or the end of all values where an infinity lies. -/
def value : Number → WithBot (WithTop ℚ)
  | int n => ((n : ℚ) : WithTop ℚ)
  | float (.finite negative m e) => ((signFactor negative * m * 2 ^ e : ℚ) : WithTop ℚ)
  | float (.infinite true) => ⊥
  | float (.infinite false) => ⊤

/-- What a number is compared by, and its value. -/
theorem key_cases (n : Number) :
    (n.key = (-1, 0) ∧ n.value = ⊥) ∨ (∃ q : ℚ, n.key = (0, q) ∧ n.value = (q : WithTop ℚ)) ∨
      (n.key = (1, 0) ∧ n.value = ⊤) := by
  cases n with
  | int n => exact .inr (.inl ⟨n, rfl, rfl⟩)
  | float x =>
    cases x with
    | finite negative m e =>
      refine .inr (.inl ⟨signFactor negative * m * 2 ^ e, ?_, rfl⟩)
      simp only [key, Binary64.key, Binary64.toRat?_eq]
    | infinite negative =>
      cases negative with
      | true => exact .inl ⟨rfl, rfl⟩
      | false => exact .inr (.inr ⟨rfl, rfl⟩)

theorem same_iff (m n : Number) : m.same n = true ↔ m.value = n.value := by
  rw [same, beq_iff_eq]
  rcases m.key_cases with ⟨hm, hm'⟩ | ⟨p, hm, hm'⟩ | ⟨hm, hm'⟩ <;>
    rcases n.key_cases with ⟨hn, hn'⟩ | ⟨q, hn, hn'⟩ | ⟨hn, hn'⟩ <;>
    rw [hm, hn, hm', hn'] <;> simp

theorem lt_iff (m n : Number) : m.lt n = true ↔ m.value < n.value := by
  rw [lt]
  rcases m.key_cases with ⟨hm, hm'⟩ | ⟨p, hm, hm'⟩ | ⟨hm, hm'⟩ <;>
    rcases n.key_cases with ⟨hn, hn'⟩ | ⟨q, hn, hn'⟩ | ⟨hn, hn'⟩ <;>
    rw [hm, hn, hm', hn'] <;> simp [lt_top_iff_ne_top]

theorem toInt?_eq_some_iff (n : Number) (i : Int) :
    n.toInt? = some i ↔ n.value = ((i : ℚ) : WithTop ℚ) := by
  cases n with
  | int k => simp [toInt?, value]
  | float x =>
    cases x with
    | finite negative m e =>
      simp only [toInt?, Binary64.toInt?, Binary64.toRat?_eq, value, WithBot.coe_inj,
        WithTop.coe_inj]
      generalize signFactor negative * (m : ℚ) * 2 ^ e = q
      constructor
      · intro h
        obtain ⟨hden, hnum⟩ := Option.ite_none_right_eq_some.1 h
        rw [← Option.some_inj.1 hnum, (Rat.den_eq_one_iff q).1 hden]
      · rintro rfl
        simp
    | infinite negative => cases negative <;> simp [toInt?, Binary64.toInt?, Binary64.toRat?, value]

/-- Whether a number is an integer, and which, can be told from its value. -/
theorem toInt?_eq {m n : Number} (h : m.value = n.value) : m.toInt? = n.toInt? := by
  ext i
  rw [toInt?_eq_some_iff, toInt?_eq_some_iff, h]

/-- An integer and a floating-point number of its value are told apart by their forms only. -/
example : (int 2).same (float (.finite false 1 1)) = true ∧ int 2 ≠ float (.finite false 1 1) := by
  decide +kernel

end Number

end HexRules
