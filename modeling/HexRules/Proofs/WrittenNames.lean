import HexRules.Catalog
import HexRules.Registry
import Mathlib.Data.List.Basic

/-!
# Written names

A text names an identifier in two ways: bare, in the reader's namespace, or with its own namespace
before a separator.  A text with two separators or more names nothing.

    Identifier.parse? text space = some i ↔ Written space text i         (parse?_eq_some_iff)
    Identifier.parse? text space = none ↔ text holds two separators or more
                                                                         (parse?_eq_none_iff)
    c.resolve text = .ok p ↔ Written c.id text p ∧ p ∈ c.pieces          (resolve_eq_ok_iff)
-/

namespace HexRules

namespace Identifier

/-- The text names the identifier to a reader with the given namespace. -/
inductive Written (space : String) : String → Identifier → Prop
  | bare {text : String} (h : separator ∉ text.toList) : Written space text ⟨space, text⟩
  | qualified {i : Identifier} (hspace : separator ∉ i.space.toList)
      (hname : separator ∉ i.name.toList) : Written space i.text i

theorem toList_text (i : Identifier) :
    i.text.toList = i.space.toList ++ separator :: i.name.toList := by
  simp [text, separator]

/-! ## Parts -/

theorem parts_eq_splitOn (cs : List Char) : parts cs = cs.splitOn separator := by
  induction cs with
  | nil => rfl
  | cons c rest ih =>
    rw [parts, List.splitOn_cons_eq_if_modifyHead, ih]
    by_cases hc : c = separator
    · rw [if_pos hc, if_pos (beq_iff_eq.2 hc)]
    · rw [if_neg hc, if_neg fun h => hc (beq_iff_eq.1 h)]
      cases h : rest.splitOn separator with
      | nil => exact absurd h (List.splitOn_ne_nil _ _)
      | cons part more => rfl

theorem parts_ne_nil (cs : List Char) : parts cs ≠ [] := by
  rw [parts_eq_splitOn]
  exact List.splitOn_ne_nil _ _

theorem parts_of_not_mem {cs : List Char} (h : separator ∉ cs) : parts cs = [cs] := by
  rw [parts_eq_splitOn, List.splitOn_eq_singleton h]

theorem parts_append_separator {xs : List Char} (h : separator ∉ xs) (ys : List Char) :
    parts (xs ++ separator :: ys) = xs :: parts ys := by
  rw [parts_eq_splitOn, parts_eq_splitOn, List.splitOn_append_cons_self_of_not_mem h]

/-- A text has no separator, or it is split at the first one. -/
theorem parts_cases (cs : List Char) :
    (separator ∉ cs ∧ parts cs = [cs]) ∨
    ∃ xs ys, cs = xs ++ separator :: ys ∧ separator ∉ xs ∧ parts cs = xs :: parts ys := by
  by_cases h : separator ∈ cs
  · obtain ⟨xs, ys, rfl, hxs⟩ := List.eq_append_cons_of_mem h
    exact .inr ⟨xs, ys, rfl, hxs, parts_append_separator hxs ys⟩
  · exact .inl ⟨h, parts_of_not_mem h⟩

/-! ## Reading -/

theorem parse?_of_written {text space : String} {i : Identifier} (h : Written space text i) :
    parse? text space = some i := by
  cases h with
  | bare h => simp only [parse?, parts_of_not_mem h, String.ofList_toList]
  | qualified hspace hname =>
    simp only [parse?, toList_text, parts_append_separator hspace, parts_of_not_mem hname,
      String.ofList_toList]

/-- What a text names, by the number of its separators. -/
theorem written_cases (text space : String) :
    (text.toList.count separator < 2 ∧ ∃ i, Written space text i) ∨
    (2 ≤ text.toList.count separator ∧ parse? text space = none) := by
  rcases parts_cases text.toList with ⟨htext, -⟩ | ⟨xs, ys, htext, hxs, hparts⟩
  · -- No separator: a bare name.
    refine .inl ⟨?_, ⟨space, text⟩, .bare htext⟩
    rw [List.count_eq_zero_of_not_mem htext]
    decide
  · have hcount : text.toList.count separator = ys.count separator + 1 := by
      rw [htext, List.count_append, List.count_eq_zero_of_not_mem hxs, List.count_cons_self,
        Nat.zero_add]
    rcases parts_cases ys with ⟨hys, -⟩ | ⟨zs, ws, rfl, -, hmore⟩
    · -- One separator: what stands before it is the namespace.
      refine .inl ⟨?_, ⟨String.ofList xs, String.ofList ys⟩, ?_⟩
      · rw [hcount, List.count_eq_zero_of_not_mem hys]
        decide
      · have heq : text = (⟨String.ofList xs, String.ofList ys⟩ : Identifier).text := by
          apply String.toList_injective
          rw [toList_text, String.toList_ofList, String.toList_ofList, htext]
        rw [heq]
        exact .qualified (by rwa [String.toList_ofList]) (by rwa [String.toList_ofList])
    · -- A second separator: there are three parts or more.
      refine .inr ⟨?_, ?_⟩
      · rw [hcount, List.count_append, List.count_cons_self]
        omega
      · rw [parse?, hparts, hmore]
        cases hws : parts ws with
        | nil => exact absurd hws (parts_ne_nil ws)
        | cons part rest => rfl

theorem parse?_eq_some_iff (text space : String) (i : Identifier) :
    parse? text space = some i ↔ Written space text i := by
  refine ⟨fun h => ?_, parse?_of_written⟩
  rcases written_cases text space with ⟨-, i', hi'⟩ | ⟨-, hnone⟩
  · cases h.symm.trans (parse?_of_written hi')
    exact hi'
  · cases h.symm.trans hnone

theorem parse?_eq_none_iff (text space : String) :
    parse? text space = none ↔ 2 ≤ text.toList.count separator := by
  rcases written_cases text space with ⟨hcount, i, hi⟩ | ⟨hcount, hnone⟩
  · rw [parse?_of_written hi]
    constructor
    · intro h
      cases h
    · intro h
      omega
  · exact ⟨fun _ => hcount, fun _ => hnone⟩

end Identifier

open Identifier

/-! ## Look-ups -/

/-- The text names a piece of the catalog, and that piece is the one it resolves to. -/
theorem Catalog.resolve_eq_ok_iff (c : Catalog) (text : String) (p : Piece) :
    c.resolve text = .ok p ↔ Written c.id text p ∧ p ∈ c.pieces := by
  rw [← parse?_eq_some_iff]
  simp only [resolve, identify]
  cases parse? text c.id with
  | none => simp [bind, Except.bind]
  | some i =>
    simp only [bind, Except.bind, Option.some.injEq]
    split
    · rename_i hi
      constructor
      · intro h
        cases h
        exact ⟨rfl, hi⟩
      · rintro ⟨rfl, -⟩
        rfl
    · rename_i hi
      constructor
      · intro h
        cases h
      · rintro ⟨rfl, hp⟩
        exact absurd hp hi

namespace Registry

variable {β : Type} (r : Registry β)

theorem identify_eq_ok_iff (name : String) (i : Identifier) :
    r.identify name = .ok i ↔ Written r.space name i := by
  rw [← parse?_eq_some_iff, identify]
  cases parse? name r.space <;> simp

theorem get_eq_ok_iff (i : Identifier) (b : β) : r.get i = .ok b ↔ r.builders.get? i = some b := by
  rw [get]
  cases r.builders.get? i <;> simp

theorem resolve_eq_ok_iff (name : String) (b : β) :
    r.resolve name = .ok b ↔ ∃ i, Written r.space name i ∧ r.builders.get? i = some b := by
  constructor
  · intro h
    cases hi : r.identify name with
    | error e =>
      rw [resolve, hi] at h
      cases h
    | ok i =>
      rw [resolve, hi] at h
      exact ⟨i, (r.identify_eq_ok_iff name i).1 hi, (r.get_eq_ok_iff i b).1 h⟩
  · rintro ⟨i, hwritten, hget⟩
    rw [resolve, (r.identify_eq_ok_iff name i).2 hwritten]
    exact (r.get_eq_ok_iff i b).2 hget

end Registry

end HexRules
