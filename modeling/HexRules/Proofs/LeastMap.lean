import HexRules.Proofs.LeastAssignment
import Mathlib.Data.List.FinRange
import Mathlib.Order.Bounds.Basic
import Mathlib.Order.Fin.Basic
import Mathlib.Order.PiLex

/-!
# Least maps

An assignment of columns to rows is an injective map, and as long as what a row accepts does not
depend on the state, the search finds such a map whenever there is one: the least, when maps are
compared at the first row at which they differ.

    the assignments of all rows are the injective maps inside the relation
                                                                   (completes_iff_exists_inside)
    columnsOf f ≤ columnsOf g → toLex f ≤ toLex g                        (toLex_le_of_columnsOf_le)
    the search answers the least injective map, or none if there is none (assign_finds_least)
-/

namespace HexRules

namespace Assignment

variable {rows columns : Nat} {accepted : Nat → Nat → Bool}

/-- An injective map of rows to columns that lies inside the relation. -/
structure Inside (accepted : Nat → Nat → Bool) (f : Fin rows → Fin columns) : Prop where
  injective : Function.Injective f
  accepts : ∀ row : Fin rows, accepted row (f row) = true

/-- The columns of a map, row by row. -/
def columnsOf (f : Fin rows → Fin columns) : List Nat := List.ofFn fun row => (f row).val

theorem completes_iff_exists_inside (chosen : List Nat) :
    Completes accepted columns [] chosen ∧ chosen.length = rows ↔
      ∃ f : Fin rows → Fin columns, Inside accepted f ∧ chosen = columnsOf f := by
  constructor
  · rintro ⟨hcompletes, rfl⟩
    have hfresh := hcompletes.fresh
    refine ⟨fun row => ⟨chosen[row], hfresh.lt _ (List.getElem_mem _)⟩, ⟨?_, ?_⟩, ?_⟩
    · intro i j hij
      exact Fin.ext (hfresh.nodup.getElem_inj_iff.1 (Fin.mk.inj hij))
    · intro row
      have haccepts := hcompletes.accepts row chosen[row] (List.getElem?_eq_getElem row.isLt)
      rwa [List.length_nil, Nat.zero_add] at haccepts
    · exact List.ofFn_getElem.symm
  · rintro ⟨f, hf, rfl⟩
    refine ⟨completes_of_fresh ⟨?_, by simp, ?_⟩ ?_, List.length_ofFn⟩
    · exact List.nodup_ofFn.2 (Fin.val_injective.comp hf.injective)
    · intro column hm
      obtain ⟨row, rfl⟩ := List.mem_ofFn.1 hm
      exact (f row).isLt
    · intro i column hi
      obtain ⟨hlt, rfl⟩ := List.getElem?_eq_some_iff.1 hi
      rw [columnsOf, List.length_ofFn] at hlt
      simpa [columnsOf] using hf.accepts ⟨i, hlt⟩

/-- Maps are compared as their lists of columns are. -/
theorem toLex_le_of_columnsOf_le {f g : Fin rows → Fin columns} (h : columnsOf f ≤ columnsOf g) :
    toLex f ≤ toLex g := by
  rw [← not_lt]
  rintro ⟨row, hbefore, hrow⟩
  have hlt : columnsOf g < columnsOf f := by
    refine List.lt_iff_exists.2 (.inr ⟨row, by simp [columnsOf], by simp [columnsOf], ?_, ?_⟩)
    · intro i hi
      simpa [columnsOf] using congrArg Fin.val (hbefore ⟨i, by omega⟩ hi)
    · simpa [columnsOf] using hrow
  exact absurd h (not_le_of_gt hlt)

end Assignment

open Assignment

/-- **The least map.**  Let what is asked answer by row and column alone, whatever it does to the
state.  Then the search answers none exactly if there is no injective map of rows to columns inside
the relation, and else the columns of one, row by row: the least of all such maps, compared at the
first row at which they differ. -/
theorem assign_finds_least {σ : Type} [FrameStack σ] {accepts : Nat → Nat → σ → Bool × σ}
    {accepted : Nat → Nat → Bool} (h : Asks accepts accepted) (rows columns : Nat) (s : σ) :
    ((assign rows columns accepts s).1 = none ↔
      ¬ ∃ f : Fin rows → Fin columns, Inside accepted f) ∧
    ∀ chosen, (assign rows columns accepts s).1 = some chosen →
      ∃ f : Fin rows → Fin columns, chosen = columnsOf f ∧
        IsLeast {g : Lex (Fin rows → Fin columns) | Inside accepted (ofLex g)} (toLex f) := by
  rw [assign_fst h]
  constructor
  · rw [← Option.not_isSome_iff_eq_none, isSome_least_iff]
    simp only [completes_iff_exists_inside]
    refine not_congr ⟨?_, ?_⟩
    · rintro ⟨_, f, hf, -⟩
      exact ⟨f, hf⟩
    · rintro ⟨f, hf⟩
      exact ⟨_, f, hf, rfl⟩
  · intro chosen hchosen
    obtain ⟨hcompletes, hlen, hleast⟩ := least_spec hchosen
    obtain ⟨f, hf, rfl⟩ := (completes_iff_exists_inside chosen).1 ⟨hcompletes, hlen⟩
    refine ⟨f, rfl, hf, fun g hg => ?_⟩
    obtain ⟨hother, holen⟩ := (completes_iff_exists_inside _).2 ⟨ofLex g, hg, rfl⟩
    exact toLex_le_of_columnsOf_le (hleast _ hother holen)

namespace Relay

/-- Every row but one's own, and what is asked is noted in the frame. -/
def elsewhere (row column : Nat) (s : Scope) : Bool × Scope :=
  (decide (row ≠ column), s.add "asked" (.bool true))

theorem asks_elsewhere : Asks elsewhere fun row column => decide (row ≠ column) :=
  fun _ _ _ => rfl

/-- The least derangement of three, which is found when the second row has gone back on its first
choice; a single row has none. -/
theorem derangement_found :
    Asks elsewhere (fun row column => decide (row ≠ column)) ∧
      (assign 3 3 elsewhere Scope.empty).1 = some [1, 2, 0] ∧
      (∃ f : Fin 3 → Fin 3, [1, 2, 0] = columnsOf f ∧
        IsLeast {g : Lex (Fin 3 → Fin 3) |
          Inside (fun row column => decide (row ≠ column)) (ofLex g)} (toLex f)) ∧
      ¬ ∃ f : Fin 1 → Fin 1, Inside (fun row column => decide (row ≠ column)) f := by
  have hfound : (assign 3 3 elsewhere Scope.empty).1 = some [1, 2, 0] := by
    rw [assign_eq_place]
    rfl
  have hnone : (assign 1 1 elsewhere Scope.empty).1 = none := by
    rw [assign_eq_place]
    rfl
  exact ⟨asks_elsewhere, hfound,
    (assign_finds_least asks_elsewhere 3 3 Scope.empty).2 [1, 2, 0] hfound,
    (assign_finds_least asks_elsewhere 1 1 Scope.empty).1.1 hnone⟩

end Relay

end HexRules
