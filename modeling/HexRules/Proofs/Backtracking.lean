import HexRules.Matching.Assignment

/-!
# Assignments by recursion

`place` is plain recursive backtracking: for the next row try the unused columns in increasing
order, each in a fresh frame, go on with the rows after it, and drop the frame if that fails.  The
search with a stack of choices takes the same steps, for any states and any `accepts`:

    assign rows columns accepts s = place accepts columns rows [] 0 s    (assign_eq_place)

When dropping the frame of an attempt undoes it (`Undoes`), a search that fails ends where it
began, and one that succeeds has made the accepted attempts only, one frame a row (`Path`):

    assign rows columns accepts s = (none, t) → t = s                    (eq_of_assign_none)
    assign rows columns accepts s = (some found, t) →
      found are distinct columns, one a row, and Path accepts 0 found s t  (path_of_assign_some)
-/

namespace HexRules

namespace Assignment

variable {σ : Type} [FrameStack σ] (accepts : Nat → Nat → σ → Bool × σ)

/-! ## Recursive backtracking -/

/-- The columns from `start` on that are not taken. -/
def unused (columns : Nat) (chosen : List Nat) (start : Nat) : List Nat :=
  (List.range' start (columns - start)).filter fun column => column ∉ chosen

/-- The first attempt that leads to an assignment; the others are undone. -/
def tryColumns (attempt : Nat → σ → Option (List Nat) × σ) : List Nat → σ → Option (List Nat) × σ
  | [], s => (none, s)
  | column :: rest, s =>
    match attempt column (FrameStack.push s) with
    | (some found, t) => (some found, t)
    | (none, t) => tryColumns attempt rest (FrameStack.pop t)

/-- Ask for one column of a row, in the frame pushed for it, and go on if it is accepted. -/
def tryColumn (row : Nat) (onward : Nat → σ → Option (List Nat) × σ) (column : Nat) (s : σ) :
    Option (List Nat) × σ :=
  let answer := accepts row column s
  if answer.1 then onward column answer.2 else (none, answer.2)

/-- Place `left` more rows after the columns `chosen` for the first rows, the latest first, where
the next row tries the columns from `start` on. -/
def place (columns : Nat) : Nat → List Nat → Nat → σ → Option (List Nat) × σ
  | 0, chosen, _, s => (some chosen.reverse, s)
  | left + 1, chosen, start, s =>
    tryColumns (tryColumn accepts chosen.length fun column t =>
      place columns left (column :: chosen) 0 t) (unused columns chosen start) s

/-! ## The stack of choices takes the same steps -/

theorem range'_of_lt {columns start : Nat} (h : start < columns) :
    List.range' start (columns - start) =
      start :: List.range' (start + 1) (columns - (start + 1)) := by
  rw [show columns - start = columns - (start + 1) + 1 by omega, List.range'_succ]

theorem range'_of_le {columns start : Nat} (h : columns ≤ start) :
    List.range' start (columns - start) = [] := by
  rw [Nat.sub_eq_zero_of_le h, List.range'_zero]

theorem unused_of_lt (columns : Nat) (chosen : List Nat) (start : Nat) (h : start < columns) :
    unused columns chosen start =
      if start ∈ chosen then unused columns chosen (start + 1)
      else start :: unused columns chosen (start + 1) := by
  rw [unused, range'_of_lt h, List.filter_cons]
  by_cases hm : start ∈ chosen <;> simp [hm, unused]

theorem unused_of_le (columns : Nat) (chosen : List Nat) (start : Nat) (h : columns ≤ start) :
    unused columns chosen start = [] := by
  rw [unused, range'_of_le h, List.filter_nil]

/-- Go on when the rows left are placed or not: if not, undo the last choice, if there is one. -/
def goBack (rows columns : Nat) : List Nat → Option (List Nat) × σ → Option (List Nat) × σ
  | _, (some found, s) => (some found, s)
  | [], (none, s) => (none, s)
  | column :: rest, (none, s) =>
    searchFrom rows columns accepts rest (column + 1) (FrameStack.pop s)

/-- The induction is on the rows left, and for each of them on the columns left for the row. -/
theorem searchFrom_eq_goBack (rows columns left : Nat) (chosen : List Nat) (start : Nat) (s : σ)
    (h : chosen.length + left = rows) :
    searchFrom rows columns accepts chosen start s =
      goBack accepts rows columns chosen (place accepts columns left chosen start s) := by
  induction left generalizing chosen start s with
  | zero =>
    rw [searchFrom, dif_neg (by omega)]
    rfl
  | succ left ihRows =>
    generalize hk : columns - start = k
    induction k generalizing start s with
    | zero =>
      rw [searchFrom, dif_pos (by omega), dif_neg (by omega), place,
        unused_of_le columns chosen start (by omega)]
      cases chosen <;> rfl
    | succ k ihColumns =>
      rw [searchFrom, dif_pos (by omega), dif_pos (by omega), place,
        unused_of_lt columns chosen start (by omega)]
      by_cases hm : start ∈ chosen
      · rw [if_pos hm, if_pos hm, ihColumns (start + 1) s (by omega), place]
      · rw [if_neg hm, if_neg hm, tryColumns, tryColumn]
        by_cases ha : (accepts chosen.length start (FrameStack.push s)).1 = true
        · simp only [ha, if_true]
          rw [ihRows (start :: chosen) 0 _ (by rw [List.length_cons]; omega)]
          generalize place accepts columns left (start :: chosen) 0 _ = result
          obtain ⟨found, t⟩ := result
          cases found with
          | some found => rfl
          | none => exact ihColumns (start + 1) (FrameStack.pop t) (by omega)
        · simp only [ha]
          exact ihColumns (start + 1) _ (by omega)

/-- **Recursion.**  The search with a stack of choices is the recursive search. -/
theorem assign_eq_place (rows columns : Nat) (s : σ) :
    assign rows columns accepts s = place accepts columns rows [] 0 s := by
  rw [assign, searchFrom_eq_goBack accepts rows columns rows [] 0 s (by simp)]
  generalize place accepts columns rows [] 0 s = result
  obtain ⟨found, t⟩ := result
  cases found <;> rfl

/-! ## Attempts that can be undone -/

/-- Dropping the frame of an attempt undoes it, whatever was bound in the frame. -/
def Undoes : Prop :=
  ∀ (row column : Nat) (s : σ), FrameStack.pop (accepts row column (FrameStack.push s)).2 = s

/-- From `s` to `t` the rows from `row` on accept their columns, each in a frame of its own. -/
inductive Path : Nat → List Nat → σ → σ → Prop
  | done (row : Nat) (s : σ) : Path row [] s s
  | next {row column : Nat} {rest : List Nat} {s t : σ}
      (accepted : (accepts row column (FrameStack.push s)).1 = true)
      (onward : Path (row + 1) rest (accepts row column (FrameStack.push s)).2 t) :
      Path row (column :: rest) s t

/-- Columns for the next rows: distinct, not taken before, and columns at all. -/
structure Fresh (columns : Nat) (chosen more : List Nat) : Prop where
  nodup : more.Nodup
  not_mem : ∀ column ∈ more, column ∉ chosen
  lt : ∀ column ∈ more, column < columns

theorem Fresh.nil (columns : Nat) (chosen : List Nat) : Fresh columns chosen [] :=
  ⟨List.nodup_nil, by simp, by simp⟩

theorem Fresh.cons {columns column : Nat} {chosen more : List Nat}
    (h : Fresh columns (column :: chosen) more) (hlt : column < columns)
    (hnot : column ∉ chosen) : Fresh columns chosen (column :: more) := by
  refine ⟨?_, ?_, ?_⟩
  · exact List.nodup_cons.2 ⟨fun hc => h.not_mem column hc List.mem_cons_self, h.nodup⟩
  · intro c hc
    rcases List.mem_cons.1 hc with rfl | hc
    · exact hnot
    · exact fun hcc => h.not_mem c hc (List.mem_cons_of_mem _ hcc)
  · intro c hc
    rcases List.mem_cons.1 hc with rfl | hc
    · exact hlt
    · exact h.lt c hc

theorem mem_unused {columns : Nat} {chosen : List Nat} {start column : Nat}
    (h : column ∈ unused columns chosen start) : column < columns ∧ column ∉ chosen := by
  simp only [unused, List.mem_filter, List.mem_range'_1, decide_eq_true_eq] at h
  exact ⟨by omega, h.2⟩

/-- Every attempt starts where the search for the row started: those that failed before it have
been undone. -/
theorem tryColumns_spec (attempt : Nat → σ → Option (List Nat) × σ)
    (hundo : ∀ column s t, attempt column (FrameStack.push s) = (none, t) → FrameStack.pop t = s)
    (columns : List Nat) (s : σ) :
    tryColumns attempt columns s = (none, s) ∨ ∃ column ∈ columns, ∃ found t,
      attempt column (FrameStack.push s) = (some found, t) ∧
        tryColumns attempt columns s = (some found, t) := by
  induction columns with
  | nil => exact .inl rfl
  | cons column rest ih =>
    rw [tryColumns]
    cases hr : attempt column (FrameStack.push s) with
    | mk found t =>
      cases found with
      | some found => exact .inr ⟨column, List.mem_cons_self, found, t, hr, rfl⟩
      | none =>
        simp only [hundo column s t hr]
        rcases ih with h | ⟨column', hm, h⟩
        · exact .inl h
        · exact .inr ⟨column', List.mem_cons_of_mem _ hm, h⟩

/-- When going on leaves no trace of a failure, an attempt leaves none. -/
theorem tryColumn_undone {accepts : Nat → Nat → σ → Bool × σ} (hundo : Undoes accepts)
    {onward : Nat → σ → Option (List Nat) × σ}
    (honward : ∀ column t u, onward column t = (none, u) → u = t) {row column : Nat} {s t : σ}
    (h : tryColumn accepts row onward column (FrameStack.push s) = (none, t)) :
    FrameStack.pop t = s := by
  rw [← hundo row column s]
  simp only [tryColumn] at h
  split at h
  · rw [honward column _ t h]
  · rw [← (Prod.mk.inj h).2]

theorem place_undone {accepts : Nat → Nat → σ → Bool × σ} (hundo : Undoes accepts)
    {columns left : Nat} {chosen : List Nat} {start : Nat} {s t : σ}
    (h : place accepts columns left chosen start s = (none, t)) : t = s := by
  induction left generalizing chosen start s t with
  | zero => cases h
  | succ left ih =>
    rw [place] at h
    rcases tryColumns_spec _ (fun column s t => tryColumn_undone hundo fun column t u => ih)
      (unused columns chosen start) s with hn | ⟨column, hm, found, u, ha, hs⟩
    · exact (Prod.mk.inj (h.symm.trans hn)).2
    · cases h.symm.trans hs

/-- No column of a row leaves a trace if it leads to nothing. -/
theorem row_undone {accepts : Nat → Nat → σ → Bool × σ} (hundo : Undoes accepts)
    {columns left row column : Nat} {chosen : List Nat} {s t : σ}
    (h : tryColumn accepts row (fun column t => place accepts columns left (column :: chosen) 0 t)
      column (FrameStack.push s) = (none, t)) : FrameStack.pop t = s :=
  tryColumn_undone hundo (fun _ _ _ => place_undone hundo) h

/-- The two ways in which the search for the rows left ends. -/
theorem place_spec (hundo : Undoes accepts) (columns left : Nat) (chosen : List Nat) (start : Nat)
    (s : σ) :
    place accepts columns left chosen start s = (none, s) ∨
      ∃ more t, place accepts columns left chosen start s = (some (chosen.reverse ++ more), t) ∧
        more.length = left ∧ Fresh columns chosen more ∧
        Path accepts chosen.length more s t := by
  induction left generalizing chosen start s with
  | zero => exact .inr ⟨[], s, by simp [place], rfl, Fresh.nil columns chosen, .done _ _⟩
  | succ left ih =>
    rw [place]
    rcases tryColumns_spec _ (fun column s t => row_undone hundo) (unused columns chosen start) s
      with h | ⟨column, hm, found, t, ha, h⟩
    · exact .inl h
    · simp only [tryColumn] at ha
      split at ha
      · rename_i hacc
        rcases ih (column :: chosen) 0 (accepts chosen.length column (FrameStack.push s)).2 with
          hn | ⟨more, u, hs, hlen, hfresh, hpath⟩
        · rw [hn] at ha
          cases ha
        · rw [hs] at ha
          obtain ⟨hf, ht⟩ := Prod.mk.inj ha
          obtain ⟨hlt, hnot⟩ := mem_unused hm
          refine .inr ⟨column :: more, t, ?_, by simp [hlen], hfresh.cons hlt hnot, ?_⟩
          · rw [h, ← Option.some.inj hf]
            simp
          · rw [← ht]
            exact .next hacc hpath
      · cases ha

/-- What is found goes on from the columns chosen. -/
theorem prefix_of_place {accepts : Nat → Nat → σ → Bool × σ} (hundo : Undoes accepts)
    {columns left start : Nat} {chosen found : List Nat} {s : σ}
    (h : (place accepts columns left chosen start s).1 = some found) :
    chosen.reverse <+: found := by
  rcases place_spec accepts hundo columns left chosen start s with hn | ⟨more, t, hs, -⟩
  · rw [hn] at h
    cases h
  · rw [hs] at h
    exact ⟨more, Option.some.inj h⟩

theorem eq_of_assign_none (hundo : Undoes accepts) (rows columns : Nat) (s t : σ)
    (h : assign rows columns accepts s = (none, t)) : t = s := by
  rw [assign_eq_place] at h
  exact place_undone hundo h

theorem path_of_assign_some (hundo : Undoes accepts) (rows columns : Nat) (found : List Nat)
    (s t : σ) (h : assign rows columns accepts s = (some found, t)) :
    found.length = rows ∧ found.Nodup ∧ (∀ column ∈ found, column < columns) ∧
      Path accepts 0 found s t := by
  rw [assign_eq_place] at h
  rcases place_spec accepts hundo columns rows [] 0 s with
    hn | ⟨more, u, hs, hlen, hfresh, hpath⟩
  · rw [hn] at h
    cases h
  · rw [hs] at h
    obtain ⟨hf, ht⟩ := Prod.mk.inj h
    have hmore : more = found := Option.some.inj hf
    rw [← hmore, ← ht]
    exact ⟨hlen, hfresh.nodup, hfresh.lt, hpath⟩

end Assignment

end HexRules
