import HexRules.Proofs.Backtracking
import Mathlib.Data.List.Forall2
import Mathlib.Data.List.Lex
import Mathlib.Data.List.Perm.Subperm
import Mathlib.Data.Nat.Basic

/-!
# Least assignments

When what a row accepts does not depend on the state (`Asks`), the search is a function of that
relation alone.  It finds an assignment whenever there is one, and of all assignments the one that
comes first when they are compared row by row.

    (assign rows columns accepts s).1 = least accepted columns rows []   (assign_fst)
    least … = none → no assignment completes `chosen`                    (not_completes_of_least)
    least … = some more → `more` completes `chosen`, and no assignment that does is less
                                                                         (least_spec)

An assignment in which every row takes the first column that it accepts, of those that the rows
before it leave, is the least one (`le_of_firstFit`).  When rows and columns are the elements of two
lists, an assignment is a list of distinct positions (`completes_iff_forall₂`).
-/

namespace HexRules

namespace Assignment

/-! ## The search as a function -/

/-- What the search asks does not depend on the state. -/
def Asks {σ : Type} (accepts : Nat → Nat → σ → Bool × σ) (accepted : Nat → Nat → Bool) : Prop :=
  ∀ row column s, (accepts row column s).1 = accepted row column

/-- The first columns, in the order in which they are tried, for `left` rows after the rows that
took the columns `chosen`, the latest first. -/
def least (accepted : Nat → Nat → Bool) (columns : Nat) : Nat → List Nat → Option (List Nat)
  | 0, _ => some []
  | left + 1, chosen =>
    (unused columns chosen 0).findSome? fun column =>
      if accepted chosen.length column then
        (least accepted columns left (column :: chosen)).map (column :: ·)
      else none

theorem tryColumns_fst {σ : Type} [FrameStack σ] (attempt : Nat → σ → Option (List Nat) × σ)
    (found : Nat → Option (List Nat)) (h : ∀ column s, (attempt column s).1 = found column)
    (columns : List Nat) (s : σ) :
    (tryColumns attempt columns s).1 = columns.findSome? found := by
  induction columns generalizing s with
  | nil => rfl
  | cons column rest ih =>
    have hcolumn := h column (FrameStack.push s)
    rw [tryColumns, List.findSome?_cons]
    cases hr : attempt column (FrameStack.push s) with
    | mk answer t =>
      rw [hr] at hcolumn
      simp only at hcolumn
      rw [← hcolumn]
      cases answer with
      | none => exact ih (FrameStack.pop t)
      | some more => rfl

theorem place_fst {σ : Type} [FrameStack σ] {accepts : Nat → Nat → σ → Bool × σ}
    {accepted : Nat → Nat → Bool} (h : Asks accepts accepted) (columns left : Nat)
    (chosen : List Nat) (s : σ) :
    (place accepts columns left chosen 0 s).1 =
      (least accepted columns left chosen).map (chosen.reverse ++ ·) := by
  induction left generalizing chosen s with
  | zero => simp [place, least]
  | succ left ih =>
    rw [place, least, List.map_findSome?]
    apply tryColumns_fst
    intro column t
    rw [tryColumn, h, Function.comp_apply]
    by_cases ha : accepted chosen.length column = true
    · rw [if_pos ha, if_pos ha, ih, Option.map_map]
      congr 1
      funext more
      simp
    · rw [if_neg ha, if_neg ha]
      rfl

theorem assign_fst {σ : Type} [FrameStack σ] {accepts : Nat → Nat → σ → Bool × σ}
    {accepted : Nat → Nat → Bool} (h : Asks accepts accepted) (rows columns : Nat) (s : σ) :
    (assign rows columns accepts s).1 = least accepted columns rows [] := by
  rw [assign_eq_place, place_fst h]
  simp

/-! ## Assignments -/

variable {accepted : Nat → Nat → Bool} {columns : Nat}

/-- The rows after those that took the columns `chosen` accept the columns `more`, which are columns
that no row before them took. -/
inductive Completes (accepted : Nat → Nat → Bool) (columns : Nat) : List Nat → List Nat → Prop
  | done (chosen : List Nat) : Completes accepted columns chosen []
  | next {chosen more : List Nat} {column : Nat} (lt : column < columns)
      (fresh : column ∉ chosen) (accepts : accepted chosen.length column = true)
      (onward : Completes accepted columns (column :: chosen) more) :
      Completes accepted columns chosen (column :: more)

theorem Completes.fresh {chosen more : List Nat} (h : Completes accepted columns chosen more) :
    Fresh columns chosen more := by
  induction h with
  | done chosen => exact Fresh.nil columns chosen
  | next lt fresh _ _ ih => exact ih.cons lt fresh

theorem Completes.accepts {chosen more : List Nat} (h : Completes accepted columns chosen more)
    (i column : Nat) (hi : more[i]? = some column) :
    accepted (chosen.length + i) column = true := by
  induction h generalizing i with
  | done chosen => cases hi
  | next lt fresh accepts onward ih =>
    cases i with
    | zero =>
      cases hi
      exact accepts
    | succ i =>
      have honward := ih i hi
      rw [List.length_cons, Nat.add_right_comm] at honward
      exact honward

/-- Distinct columns that the rows accept, row by row, are an assignment. -/
theorem completes_of_fresh {chosen more : List Nat} (hfresh : Fresh columns chosen more)
    (haccepts : ∀ i column, more[i]? = some column →
      accepted (chosen.length + i) column = true) :
    Completes accepted columns chosen more := by
  induction more generalizing chosen with
  | nil => exact .done chosen
  | cons column more ih =>
    obtain ⟨hcolumn, hnodup⟩ := List.nodup_cons.1 hfresh.nodup
    refine .next (hfresh.lt column List.mem_cons_self) (hfresh.not_mem column List.mem_cons_self)
      (haccepts 0 column rfl) (ih ⟨hnodup, ?_, ?_⟩ ?_)
    · intro c hc hmem
      rcases List.mem_cons.1 hmem with rfl | hmem
      · exact hcolumn hc
      · exact hfresh.not_mem c (List.mem_cons_of_mem _ hc) hmem
    · intro c hc
      exact hfresh.lt c (List.mem_cons_of_mem _ hc)
    · intro i c hi
      have hnext := haccepts (i + 1) c hi
      rw [List.length_cons, Nat.add_right_comm]
      exact hnext

/-- There are no more rows than columns. -/
theorem Fresh.length_le {chosen more : List Nat} (h : Fresh columns chosen more) :
    more.length ≤ columns := by
  have hsub : more ⊆ List.range columns := fun c hc => List.mem_range.2 (h.lt c hc)
  have hlen := (List.subperm_of_subset h.nodup hsub).length_le
  rw [List.length_range] at hlen
  exact hlen

/-! ## The search finds the least one -/

theorem mem_unused_iff {chosen : List Nat} {column : Nat} :
    column ∈ unused columns chosen 0 ↔ column < columns ∧ column ∉ chosen := by
  simp [unused, List.mem_filter, List.mem_range'_1]

/-- Columns are tried from the lowest to the highest. -/
theorem pairwise_unused (chosen : List Nat) : (unused columns chosen 0).Pairwise (· < ·) :=
  List.Pairwise.filter _ List.pairwise_lt_range'

theorem not_completes_of_least {left : Nat} {chosen more : List Nat}
    (h : least accepted columns left chosen = none)
    (hmore : Completes accepted columns chosen more) : more.length ≠ left := by
  induction hmore generalizing left with
  | done chosen =>
    cases left with
    | zero => cases h
    | succ left => simp
  | @next chosen more column lt fresh accepts onward ih =>
    cases left with
    | zero => simp
    | succ left =>
      rw [least, List.findSome?_eq_none_iff] at h
      have hcolumn := h column (mem_unused_iff.2 ⟨lt, fresh⟩)
      rw [if_pos accepts, Option.map_eq_none_iff] at hcolumn
      have hlen := ih hcolumn
      rw [List.length_cons]
      omega

/-- The induction is on the rows left: the first column that leads to an assignment is the least
one with which there is an assignment. -/
theorem least_spec {left : Nat} {chosen more : List Nat}
    (h : least accepted columns left chosen = some more) :
    Completes accepted columns chosen more ∧ more.length = left ∧
      ∀ other, Completes accepted columns chosen other → other.length = left → more ≤ other := by
  induction left generalizing chosen more with
  | zero =>
    cases h
    refine ⟨.done chosen, rfl, fun other _ holen => ?_⟩
    exact le_of_eq (List.length_eq_zero_iff.1 holen).symm
  | succ left ih =>
    rw [least, List.findSome?_eq_some_iff] at h
    obtain ⟨before, column, after, hsplit, hcolumn, hbefore⟩ := h
    split at hcolumn
    case isFalse => cases hcolumn
    case isTrue ha =>
      obtain ⟨rest, hrest, rfl⟩ := Option.map_eq_some_iff.1 hcolumn
      obtain ⟨hcompletes, hlen, hleast⟩ := ih hrest
      have hmem : column ∈ unused columns chosen 0 := by
        rw [hsplit]
        simp
      obtain ⟨hlt, hfresh⟩ := mem_unused_iff.1 hmem
      refine ⟨.next hlt hfresh ha hcompletes, by rw [List.length_cons, hlen], ?_⟩
      intro other hother holen
      cases hother with
      | done => cases holen
      | @next _ rest' column' hlt' hfresh' ha' honward =>
        have holen' : rest'.length = left := Nat.succ.inj holen
        have hmem' : column' ∈ before ++ column :: after := by
          rw [← hsplit]
          exact mem_unused_iff.2 ⟨hlt', hfresh'⟩
        rcases List.mem_append.1 hmem' with hb | hb
        · -- a column tried before leads to no assignment
          have hnone := hbefore column' hb
          rw [if_pos ha', Option.map_eq_none_iff] at hnone
          exact absurd holen' (not_completes_of_least hnone honward)
        · rcases List.mem_cons.1 hb with rfl | hb
          · exact List.cons_le_cons _ (hleast rest' honward holen')
          · have hsorted : (unused columns chosen 0).Pairwise (· < ·) := pairwise_unused chosen
            rw [hsplit] at hsorted
            have htail := (List.pairwise_append.1 hsorted).2.1
            exact le_of_lt (List.Lex.rel ((List.pairwise_cons.1 htail).1 column' hb))

/-- An assignment that takes for every row the first column left is the least one. -/
theorem le_of_firstFit {chosen more other : List Nat}
    (hfirst : ∀ i column, more[i]? = some column → ∀ c, c < column →
      accepted (chosen.length + i) c = true → c ∈ chosen ∨ c ∈ more.take i)
    (hother : Completes accepted columns chosen other) (hlen : more.length = other.length) :
    more ≤ other := by
  induction more generalizing chosen other with
  | nil => exact le_of_eq (List.length_eq_zero_iff.1 hlen.symm).symm
  | cons column more ih =>
    cases hother with
    | done => cases hlen
    | @next _ rest column' lt' fresh' accepts' onward =>
      rcases Nat.lt_trichotomy column column' with hlt | rfl | hgt
      · exact le_of_lt (List.Lex.rel hlt)
      · refine List.cons_le_cons _ (ih ?_ onward (Nat.succ.inj hlen))
        intro i c hi d hd ha
        rw [List.length_cons, Nat.add_right_comm] at ha
        rcases hfirst (i + 1) c hi d hd ha with hm | hm
        · exact .inl (List.mem_cons_of_mem _ hm)
        · rw [List.take_succ_cons] at hm
          rcases List.mem_cons.1 hm with rfl | hm
          · exact .inl List.mem_cons_self
          · exact .inr hm
      · rcases hfirst 0 column rfl column' hgt accepts' with hm | hm
        · exact absurd hm fresh'
        · cases hm

/-- The least assignment is the only one that is first fit. -/
theorem least_eq_some_of_firstFit {rows : Nat} {more : List Nat}
    (hmore : Completes accepted columns [] more) (hlen : more.length = rows)
    (hfirst : ∀ i column, more[i]? = some column → ∀ c, c < column →
      accepted i c = true → c ∈ more.take i) :
    least accepted columns rows [] = some more := by
  cases hl : least accepted columns rows [] with
  | none => exact absurd hlen (not_completes_of_least hl hmore)
  | some found =>
    obtain ⟨hfound, hflen, hleast⟩ := least_spec hl
    have hle : more ≤ found := by
      refine le_of_firstFit ?_ hfound (by rw [hlen, hflen])
      intro i column hi c hc ha
      rw [List.length_nil, Nat.zero_add] at ha
      exact .inr (hfirst i column hi c hc ha)
    rw [le_antisymm (hleast more hmore hlen) hle]

/-! ## Assignments between lists -/

/-- The search for all rows finds an assignment if there is one. -/
theorem isSome_least_iff {rows : Nat} :
    (least accepted columns rows []).isSome = true ↔
      ∃ more, Completes accepted columns [] more ∧ more.length = rows := by
  constructor
  · intro h
    obtain ⟨more, hmore⟩ := Option.isSome_iff_exists.1 h
    obtain ⟨hcompletes, hlen, -⟩ := least_spec hmore
    exact ⟨more, hcompletes, hlen⟩
  · rintro ⟨more, hcompletes, hlen⟩
    rw [Option.isSome_iff_ne_none]
    intro hnone
    exact not_completes_of_least hnone hcompletes hlen

/-- Without enough columns no search finds an assignment. -/
theorem least_eq_none_of_lt {rows : Nat} (h : columns < rows) :
    least accepted columns rows [] = none := by
  cases hl : least accepted columns rows [] with
  | none => rfl
  | some more =>
    obtain ⟨hcompletes, hlen, -⟩ := least_spec hl
    have hle := hcompletes.fresh.length_le
    omega

/-- When rows and columns are the elements of two lists, an assignment is a list of positions, none
of them twice, at which stand elements that the rows are related to. -/
theorem completes_iff_forall₂ {α β : Type} {r : α → β → Prop} {xs : List α} {ys : List β}
    (haccepted : ∀ i j, accepted i j = true ↔ ∃ x y, xs[i]? = some x ∧ ys[j]? = some y ∧ r x y)
    (more : List Nat) :
    Completes accepted ys.length [] more ∧ more.length = xs.length ↔
      more.Nodup ∧ List.Forall₂ (fun x j => ∃ y, ys[j]? = some y ∧ r x y) xs more := by
  constructor
  · rintro ⟨hcompletes, hlen⟩
    refine ⟨hcompletes.fresh.nodup, List.forall₂_iff_get.2 ⟨hlen.symm, ?_⟩⟩
    intro i hi hmore
    have ha := hcompletes.accepts i more[i] (List.getElem?_eq_getElem hmore)
    rw [List.length_nil, Nat.zero_add] at ha
    obtain ⟨x, y, hx, hy, hr⟩ := (haccepted _ _).1 ha
    obtain ⟨_, rfl⟩ := List.getElem?_eq_some_iff.1 hx
    exact ⟨y, hy, hr⟩
  · rintro ⟨hnodup, hall⟩
    obtain ⟨hlen, hget⟩ := List.forall₂_iff_get.1 hall
    have haccepts : ∀ i j, more[i]? = some j → accepted i j = true := by
      intro i j hi
      obtain ⟨hlt, rfl⟩ := List.getElem?_eq_some_iff.1 hi
      have hx : i < xs.length := by omega
      obtain ⟨y, hy, hr⟩ := hget i hx hlt
      exact (haccepted _ _).2 ⟨_, y, List.getElem?_eq_getElem hx, hy, hr⟩
    refine ⟨completes_of_fresh ⟨hnodup, by simp, ?_⟩ ?_, hlen.symm⟩
    · intro j hj
      obtain ⟨i, hi⟩ := List.mem_iff_getElem?.1 hj
      obtain ⟨_, y, -, hy, -⟩ := (haccepted _ _).1 (haccepts i j hi)
      exact (List.getElem?_eq_some_iff.1 hy).1
    · intro i j hi
      rw [List.length_nil, Nat.zero_add]
      exact haccepts i j hi

end Assignment

end HexRules
