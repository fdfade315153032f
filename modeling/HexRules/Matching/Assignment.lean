import HexRules.Eval.Scope

/-!
# Assignments

`assign` gives every row a column of its own that it accepts, depth first: rows in order, each
trying the lowest columns first, and going back to the last choice when a row has none left.  The
search runs over any state that has a stack of frames; every attempt has a frame of its own, which
is dropped when the attempt is undone.

The search keeps its choices on a stack and needs no bound: `weight` falls with every step.
-/

namespace HexRules

/-- States with a stack of frames. -/
class FrameStack (σ : Type) where
  push : σ → σ
  pop : σ → σ

instance : FrameStack Scope := ⟨Scope.push, Scope.pop⟩

/-- What is recorded beside a state stays when frames are dropped. -/
instance {σ τ : Type} [FrameStack σ] : FrameStack (σ × τ) :=
  ⟨fun s => (FrameStack.push s.1, s.2), fun s => (FrameStack.pop s.1, s.2)⟩

namespace Assignment

/-- The choices still open on a stack of choices, weighed so that a choice counts more than all
the choices that can come after it. -/
def weight (rows columns : Nat) : List Nat → Nat
  | [] => 0
  | column :: rest =>
    weight rows columns rest + (columns - column) * Nat.pow (columns + 2) (rows - rest.length)

/-- The weight of a stack of choices and of the columns from `start` on for the next row. -/
def openWeight (rows columns : Nat) (chosen : List Nat) (start : Nat) : Nat :=
  weight rows columns chosen + (columns + 1 - start) * Nat.pow (columns + 2) (rows - chosen.length)

theorem openWeight_next (rows columns : Nat) (chosen : List Nat) (start : Nat)
    (h : start < columns) :
    openWeight rows columns chosen (start + 1) < openWeight rows columns chosen start := by
  have hpos : 0 < Nat.pow (columns + 2) (rows - chosen.length) := Nat.pow_pos (by omega)
  have hlt : columns + 1 - (start + 1) < columns + 1 - start := by omega
  exact Nat.add_lt_add_left (Nat.mul_lt_mul_of_pos_right hlt hpos) _

theorem openWeight_choose (rows columns : Nat) (chosen : List Nat) (start : Nat)
    (hr : chosen.length < rows) (h : start < columns) :
    openWeight rows columns (start :: chosen) 0 < openWeight rows columns chosen start := by
  have hk : rows - chosen.length = rows - (chosen.length + 1) + 1 := by omega
  have hpos : 0 < Nat.pow (columns + 2) (rows - (chosen.length + 1)) := Nat.pow_pos (by omega)
  have hs : columns + 1 - start = columns - start + 1 := by omega
  simp only [openWeight, weight, List.length_cons, hs, Nat.add_mul, Nat.one_mul, Nat.sub_zero,
    Nat.add_assoc]
  refine Nat.add_lt_add_left (Nat.add_lt_add_left ?_ _) _
  generalize rows - (chosen.length + 1) = k at hk hpos ⊢
  have hstep : Nat.pow (columns + 2) (k + 1) = (columns + 2) * Nat.pow (columns + 2) k :=
    Nat.mul_comm _ _
  rw [hk, hstep, Nat.add_mul columns 2]
  omega

theorem openWeight_back (rows columns column start : Nat) (rest : List Nat) :
    openWeight rows columns rest (column + 1) ≤
      openWeight rows columns (column :: rest) start := by
  have hs : columns + 1 - (column + 1) = columns - column := by omega
  simp only [openWeight, weight, hs]
  exact Nat.le_add_right _ _

variable {σ : Type} [FrameStack σ]

/-- Search on with the columns `chosen` for the first rows, the latest first, where the next row
tries the columns from `start` on. -/
def searchFrom (rows columns : Nat) (accepts : Nat → Nat → σ → Bool × σ) (chosen : List Nat)
    (start : Nat) (s : σ) : Option (List Nat) × σ :=
  if hr : chosen.length < rows then
    if hc : start < columns then
      if start ∈ chosen then searchFrom rows columns accepts chosen (start + 1) s
      else
        let answer := accepts chosen.length start (FrameStack.push s)
        if answer.1 then searchFrom rows columns accepts (start :: chosen) 0 answer.2
        else searchFrom rows columns accepts chosen (start + 1) (FrameStack.pop answer.2)
    else
      match chosen with
      | [] => (none, s)
      | column :: rest =>
        searchFrom rows columns accepts rest (column + 1) (FrameStack.pop s)
  else (some chosen.reverse, s)
termination_by (openWeight rows columns chosen start, chosen.length)
decreasing_by
  · exact Prod.Lex.left _ _ (openWeight_next rows columns chosen start hc)
  · exact Prod.Lex.left _ _ (openWeight_choose rows columns chosen start hr hc)
  · exact Prod.Lex.left _ _ (openWeight_next rows columns chosen start hc)
  · rcases Nat.lt_or_eq_of_le (openWeight_back rows columns column start rest) with h | h
    · exact Prod.Lex.left _ _ h
    · rw [h]
      exact Prod.Lex.right _ (Nat.lt_succ_self _)

end Assignment

/-- Give every row a column of its own that it accepts: the columns in row order, or none when
there is no such assignment.  The frames of the winning attempts stay pushed. -/
def assign {σ : Type} [FrameStack σ] (rows columns : Nat) (accepts : Nat → Nat → σ → Bool × σ)
    (s : σ) : Option (List Nat) × σ :=
  Assignment.searchFrom rows columns accepts [] 0 s

end HexRules
