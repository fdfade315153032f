import HexRules.Identifier
import Mathlib.Data.Prod.Lex
import Mathlib.Data.String.Basic

/-!
# The order of identifiers

Identifiers are compared as the pairs of their namespaces and names, so their order is linear.

    a.lt b = true ↔ a.key < b.key                                        (lt_iff)
    a.le b = true ↔ a.key ≤ b.key                                        (le_iff)
    a.le b = true → b.le a = true → a = b                                (le_antisymm)
-/

namespace HexRules

namespace Identifier

/-- What identifiers are compared by. -/
def key (i : Identifier) : String ×ₗ String := toLex (i.space, i.name)

theorem key_injective : Function.Injective key := by
  intro a b h
  obtain ⟨hspace, hname⟩ := Prod.mk.inj (toLex.injective h)
  cases a
  cases b
  simp_all

theorem lt_iff (a b : Identifier) : a.lt b = true ↔ a.key < b.key := by
  rw [key, key, Prod.Lex.toLex_lt_toLex]
  simp [lt]

theorem le_iff (a b : Identifier) : a.le b = true ↔ a.key ≤ b.key := by
  rw [← not_lt, ← lt_iff, le]
  simp

theorem le_trans (a b c : Identifier) (hab : a.le b = true) (hbc : b.le c = true) :
    a.le c = true := by
  rw [le_iff] at hab hbc ⊢
  exact hab.trans hbc

theorem le_total (a b : Identifier) : (a.le b || b.le a) = true := by
  rw [Bool.or_eq_true, le_iff, le_iff]
  exact LinearOrder.le_total a.key b.key

theorem le_antisymm {a b : Identifier} (hab : a.le b = true) (hba : b.le a = true) : a = b := by
  rw [le_iff] at hab hba
  exact key_injective (hab.antisymm hba)

/-- Of two identifiers that differ the one that is not less is greater. -/
theorem lt_of_not_lt {a b : Identifier} (hne : a ≠ b) (h : ¬ a.lt b = true) : b.lt a = true := by
  rw [lt_iff] at h ⊢
  have hkey : b.key ≠ a.key := fun hk => hne (key_injective hk).symm
  exact lt_of_le_of_ne (not_lt.1 h) hkey

theorem not_le_of_lt {a b : Identifier} (h : a.lt b = true) : ¬ b.le a = true := by
  rw [le_iff, not_le, ← lt_iff]
  exact h

end Identifier

end HexRules
