import HexRules.Proofs.Backtracking
import HexRules.Proofs.Scope
import Mathlib.Data.Nat.Bitwise

/-!
# The search as a loop

The loop keeps the columns chosen, a bit for each column that is used, and the column at which the
next row goes on.  A round scans the row that comes next: it takes the first unused column that is
accepted, or, when the scan ends, the last choice is undone and its row goes on behind it.  `Loop`
is this loop, round by round, as a relation; bits and choices agree in every round (`Marks`), so
the loop always ends, in one way only:

    Loop rows columns accepts [] 0 0 s r ↔ r = assign rows columns accepts s      (loop_iff)

What is asked can be noted beside the state (`noted`).  The record changes nothing, and holds the
calls of the assignment that is found (`place_records`, `callsOf`).  So the loop asks what plain
recursion asks, of the same scopes, and ends with what it ends with (`loop_refines_recursion`).
-/

namespace HexRules

namespace Assignment

variable {σ : Type} [FrameStack σ] {accepts : Nat → Nat → σ → Bool × σ}

/-! ## Rounds of the loop -/

/-- Columns of one row in turn: a used one is skipped, any other is asked in a frame of its own,
which stays if the column is accepted and is dropped if not. -/
def scan (asks : Nat → σ → Bool × σ) (used : Nat) : List Nat → σ → Option Nat × σ
  | [], s => (none, s)
  | column :: rest, s =>
    if used.testBit column then scan asks used rest s
    else
      let answer := asks column (FrameStack.push s)
      if answer.1 then (some column, answer.2)
      else scan asks used rest (FrameStack.pop answer.2)

/-- The loop, run to its end: from the columns chosen, the latest first, the used ones as bits, the
column at which the next row goes on and the state, to the answer and the state that is left. -/
inductive Loop (rows columns : Nat) (accepts : Nat → Nat → σ → Bool × σ) :
    List Nat → Nat → Nat → σ → Option (List Nat) × σ → Prop
  | full {chosen : List Nat} {used start : Nat} {s : σ} (hfull : ¬ chosen.length < rows) :
      Loop rows columns accepts chosen used start s (some chosen.reverse, s)
  | take {chosen : List Nat} {used start column : Nat} {s t : σ} {r : Option (List Nat) × σ}
      (hopen : chosen.length < rows)
      (hscan : scan (accepts chosen.length) used (List.range' start (columns - start)) s =
        (some column, t))
      (onward : Loop rows columns accepts (column :: chosen) (used ||| 1 <<< column) 0 t r) :
      Loop rows columns accepts chosen used start s r
  | back {chosen : List Nat} {used start column : Nat} {s t : σ} {r : Option (List Nat) × σ}
      (hopen : (column :: chosen).length < rows)
      (hscan : scan (accepts (column :: chosen).length) used
        (List.range' start (columns - start)) s = (none, t))
      (onward : Loop rows columns accepts chosen (used.ldiff (1 <<< column)) (column + 1)
        (FrameStack.pop t) r) :
      Loop rows columns accepts (column :: chosen) used start s r
  | stuck {used start : Nat} {s t : σ} (hopen : ([] : List Nat).length < rows)
      (hscan : scan (accepts 0) used (List.range' start (columns - start)) s = (none, t)) :
      Loop rows columns accepts [] used start s (none, t)

variable {rows columns used start : Nat} {chosen : List Nat} {s : σ}
  {r r' : Option (List Nat) × σ}

/-- Every round is settled by what its scan comes to. -/
theorem Loop.unique (h : Loop rows columns accepts chosen used start s r)
    (h' : Loop rows columns accepts chosen used start s r') : r = r' := by
  induction h with
  | full hfull =>
    cases h' with
    | full => rfl
    | take hopen => exact absurd hopen hfull
    | back hopen => exact absurd hopen hfull
    | stuck hopen => exact absurd hopen hfull
  | take hopen hscan _ ih =>
    cases h' with
    | full hfull => exact absurd hopen hfull
    | take _ hscan' onward' =>
      cases hscan.symm.trans hscan'
      exact ih onward'
    | back _ hscan' => cases hscan.symm.trans hscan'
    | stuck _ hscan' => cases hscan.symm.trans hscan'
  | back hopen hscan _ ih =>
    cases h' with
    | full hfull => exact absurd hopen hfull
    | take _ hscan' => cases hscan.symm.trans hscan'
    | back _ hscan' onward' =>
      cases hscan.symm.trans hscan'
      exact ih onward'
  | stuck hopen hscan =>
    cases h' with
    | full hfull => exact absurd hopen hfull
    | take _ hscan' => cases hscan.symm.trans hscan'
    | stuck _ hscan' =>
      cases hscan.symm.trans hscan'
      rfl

/-- A scan may begin where another one with the same outcome does. -/
theorem Loop.of_scan_eq {start' : Nat} {s' : σ} (hopen : chosen.length < rows)
    (hscan : scan (accepts chosen.length) used (List.range' start (columns - start)) s =
      scan (accepts chosen.length) used (List.range' start' (columns - start')) s')
    (h : Loop rows columns accepts chosen used start' s' r) :
    Loop rows columns accepts chosen used start s r := by
  cases h with
  | full hfull => exact absurd hopen hfull
  | take _ hscan' onward => exact .take hopen (hscan.trans hscan') onward
  | back _ hscan' onward => exact .back hopen (hscan.trans hscan') onward
  | stuck _ hscan' => exact .stuck hopen (hscan.trans hscan')

/-! ## Used columns -/

/-- The bits that are set are those of the columns chosen. -/
structure Marks (used : Nat) (chosen : List Nat) : Prop where
  nodup : chosen.Nodup
  testBit_eq : ∀ column, used.testBit column = decide (column ∈ chosen)

theorem Marks.nil : Marks 0 [] := ⟨List.nodup_nil, by simp⟩

theorem testBit_one_shiftLeft (column c : Nat) :
    (1 <<< column).testBit c = decide (c = column) := by
  rw [Nat.one_shiftLeft, Nat.testBit_two_pow]
  simp only [eq_comm]

theorem Marks.choose {column : Nat} (h : Marks used chosen) (hfresh : column ∉ chosen) :
    Marks (used ||| 1 <<< column) (column :: chosen) := by
  refine ⟨List.nodup_cons.2 ⟨hfresh, h.nodup⟩, fun c => ?_⟩
  rw [Nat.testBit_or, h.testBit_eq, testBit_one_shiftLeft]
  simp [Bool.or_comm]

theorem Marks.undo {column : Nat} (h : Marks used (column :: chosen)) :
    Marks (used.ldiff (1 <<< column)) chosen := by
  obtain ⟨hfresh, hnodup⟩ := List.nodup_cons.1 h.nodup
  refine ⟨hnodup, fun c => ?_⟩
  rw [Nat.testBit_ldiff, h.testBit_eq, testBit_one_shiftLeft]
  by_cases hc : c = column
  · simp [hc, hfresh]
  · simp [hc]

/-! ## The loop and the search -/

/-- The search takes the columns of a scan one by one; a step of it that neither takes a column nor
undoes a choice leaves the outcome of the scan as it is. -/
theorem loop_searchFrom (hmarks : Marks used chosen) :
    Loop rows columns accepts chosen used start s
      (searchFrom rows columns accepts chosen start s) := by
  fun_induction searchFrom rows columns accepts chosen start s generalizing used with
  | case1 chosen start s hopen hlt htaken ih =>
    refine .of_scan_eq hopen ?_ (ih hmarks)
    rw [range'_of_lt hlt, scan, if_pos (by simpa [hmarks.testBit_eq] using htaken)]
  | case2 chosen start s hopen hlt hfresh answer haccepts =>
    rename_i ih
    refine .take hopen ?_ (ih (hmarks.choose hfresh))
    rw [range'_of_lt hlt, scan, if_neg (by simpa [hmarks.testBit_eq] using hfresh)]
    exact if_pos haccepts
  | case3 chosen start s hopen hlt hfresh answer haccepts =>
    rename_i ih
    refine .of_scan_eq hopen ?_ (ih hmarks)
    rw [range'_of_lt hlt, scan, if_neg (by simpa [hmarks.testBit_eq] using hfresh)]
    exact if_neg haccepts
  | case4 start s hend hopen =>
    refine .stuck hopen ?_
    rw [range'_of_le (Nat.le_of_not_lt hend), scan]
  | case5 start s hend column rest hopen ih =>
    refine .back hopen ?_ (ih hmarks.undo)
    rw [range'_of_le (Nat.le_of_not_lt hend), scan]
  | case6 chosen start s hfull => exact .full hfull

/-- The loop ends, with what the search answers and with nothing else. -/
theorem loop_iff : Loop rows columns accepts [] 0 0 s r ↔ r = assign rows columns accepts s := by
  have hloop : Loop rows columns accepts [] 0 0 s (assign rows columns accepts s) :=
    loop_searchFrom Marks.nil
  constructor
  · exact fun h => h.unique hloop
  · rintro rfl
    exact hloop

/-! ## What is asked -/

/-- A row, a column it is asked for, and the state it is asked in. -/
structure Call (σ : Type) where
  row : Nat
  column : Nat
  state : σ

/-- Note every call beside the state. -/
def noted {σ : Type} (accepts : Nat → Nat → σ → Bool × σ) (row column : Nat)
    (s : σ × List (Call σ)) : Bool × (σ × List (Call σ)) :=
  let answer := accepts row column s.1
  (answer.1, answer.2, s.2 ++ [⟨row, column, s.1⟩])

/-- The calls that give the rows from `row` on their columns, each in a frame on top of what the
calls before it left. -/
def callsOf (accepts : Nat → Nat → σ → Bool × σ) : Nat → List Nat → σ → List (Call σ)
  | _, [], _ => []
  | row, column :: rest, s =>
    ⟨row, column, FrameStack.push s⟩ ::
      callsOf accepts (row + 1) rest (accepts row column (FrameStack.push s)).2

/-- With a record the answer and the state are those without one; calls are added to the record,
those in `owed` among them if something is found. -/
def Records (log : List (Call σ)) (owed : List Nat → List (Call σ))
    (plain : Option (List Nat) × σ) (recorded : Option (List Nat) × (σ × List (Call σ))) : Prop :=
  ∃ calls, recorded = (plain.1, plain.2, log ++ calls) ∧
    ∀ found, plain.1 = some found → (owed found).Sublist calls

/-- Attempts that fail are undone, so the one that succeeds starts at `s`. -/
theorem tryColumns_records {attempt : Nat → σ → Option (List Nat) × σ}
    {recording : Nat → σ × List (Call σ) → Option (List Nat) × (σ × List (Call σ))}
    {owed : List Nat → List (Call σ)}
    (hundo : ∀ column t, attempt column (FrameStack.push s) = (none, t) → FrameStack.pop t = s)
    (hattempt : ∀ column log, Records log owed (attempt column (FrameStack.push s))
      (recording column (FrameStack.push s, log)))
    (columns : List Nat) (log : List (Call σ)) :
    Records log owed (tryColumns attempt columns s) (tryColumns recording columns (s, log)) := by
  induction columns generalizing log with
  | nil => exact ⟨[], by simp [tryColumns], by simp [tryColumns]⟩
  | cons column rest ih =>
    obtain ⟨calls, hcalls, howed⟩ := hattempt column log
    rw [tryColumns, tryColumns, show FrameStack.push (s, log) = (FrameStack.push s, log) from rfl,
      hcalls]
    cases hr : attempt column (FrameStack.push s) with
    | mk answer t =>
      rw [hr] at howed
      cases answer with
      | some found => exact ⟨calls, rfl, howed⟩
      | none =>
        obtain ⟨more, hmore, howed'⟩ := ih (log ++ calls)
        have hpop : FrameStack.pop (t, log ++ calls) = (s, log ++ calls) :=
          congrArg (·, log ++ calls) (hundo column t hr)
        simp only [hpop, hundo column t hr]
        refine ⟨calls ++ more, by rw [hmore, List.append_assoc], fun found hfound => ?_⟩
        exact (howed' found hfound).trans (List.sublist_append_right _ _)

omit [FrameStack σ] in
theorem tryColumn_records {onward : Nat → σ → Option (List Nat) × σ}
    {recording : Nat → σ × List (Call σ) → Option (List Nat) × (σ × List (Call σ))}
    {owed : List Nat → List (Call σ)} (owedNext : List Nat → List (Call σ)) {row column : Nat}
    (honward : ∀ log, Records log owedNext (onward column (accepts row column s).2)
      (recording column ((accepts row column s).2, log)))
    (howed : ∀ found, (onward column (accepts row column s).2).1 = some found →
      owed found = ⟨row, column, s⟩ :: owedNext found) (log : List (Call σ)) :
    Records log owed (tryColumn accepts row onward column s)
      (tryColumn (noted accepts) row recording column (s, log)) := by
  by_cases haccepts : (accepts row column s).1 = true
  · obtain ⟨calls, hcalls, hnext⟩ := honward (log ++ [⟨row, column, s⟩])
    refine ⟨⟨row, column, s⟩ :: calls, ?_, fun found hfound => ?_⟩
    · simp only [tryColumn, noted, if_pos haccepts, hcalls, List.append_assoc,
        List.singleton_append]
    · rw [tryColumn, if_pos haccepts] at hfound
      rw [howed found hfound]
      exact (hnext found hfound).cons_cons _
  · refine ⟨[⟨row, column, s⟩], ?_, fun found hfound => ?_⟩
    · simp [tryColumn, noted, haccepts]
    · rw [tryColumn, if_neg haccepts] at hfound
      cases hfound

/-- The calls that led to the answer are noted, in their order. -/
theorem place_records (hundo : Undoes accepts) (columns left : Nat) (chosen : List Nat)
    (start : Nat) (s : σ) (log : List (Call σ)) :
    Records log (fun found => callsOf accepts chosen.length (found.drop chosen.length) s)
      (place accepts columns left chosen start s)
      (place (noted accepts) columns left chosen start (s, log)) := by
  induction left generalizing chosen start s log with
  | zero =>
    refine ⟨[], by simp [place], fun found hfound => ?_⟩
    cases hfound
    have hdrop : chosen.reverse.drop chosen.length = [] := by simp
    simp only [hdrop, callsOf, List.Sublist.refl]
  | succ left ih =>
    rw [place, place]
    refine tryColumns_records (fun column t => row_undone hundo) (fun column log => ?_) _ log
    refine tryColumn_records (fun found => callsOf accepts (chosen.length + 1)
      (found.drop (chosen.length + 1)) (accepts chosen.length column (FrameStack.push s)).2)
      ?_ ?_ log
    · exact ih (column :: chosen) 0 _
    · intro found hfound
      obtain ⟨more, rfl⟩ := prefix_of_place hundo hfound
      have hall : ((column :: chosen).reverse ++ more).drop chosen.length = column :: more := by
        simp
      have hnext : ((column :: chosen).reverse ++ more).drop (chosen.length + 1) = more :=
        List.drop_left' (by simp)
      simp only [hall, hnext, callsOf]

/-! ## Questions that bind names -/

/-- What is asked for a row and a column: an answer and names to bind, both read off the scope. -/
abbrev Question := Nat → Nat → Scope → Bool × List Binding

/-- Ask, and bind the names in the innermost frame. -/
def Question.ask (q : Question) (row column : Nat) (s : Scope) : Bool × Scope :=
  ((q row column s).1, s.bindAll (q row column s).2)

theorem undoes_ask (q : Question) : Undoes q.ask := by
  intro row column s
  have hdepth : 0 < s.push.depth := by rw [Scope.depth_push]; omega
  exact (Scope.pop_bindAll s.push _ hdepth).trans (Scope.pop_push s)

/-- Whether a call is answered with yes. -/
def Call.accepted (q : Question) (call : Call Scope) : Bool := (q call.row call.column call.state).1

/-- The names that a call binds. -/
def Call.bound (q : Question) (call : Call Scope) : List Binding :=
  (q call.row call.column call.state).2

/-- Along a path every call is accepted, and what the calls bind is all that is left. -/
theorem accepted_of_path {q : Question} {row : Nat} {found : List Nat} {s t : Scope}
    (h : Path q.ask row found s t) :
    (∀ call ∈ callsOf q.ask row found s, call.accepted q = true) ∧
      t = s.pushAll ((callsOf q.ask row found s).map (Call.bound q)) := by
  induction h with
  | done row s => exact ⟨by simp [callsOf], rfl⟩
  | next accepted _ ih =>
    obtain ⟨hrest, ht⟩ := ih
    refine ⟨?_, ht⟩
    intro call hcall
    rcases List.mem_cons.1 hcall with rfl | hcall
    · exact accepted
    · exact hrest call hcall

theorem length_callsOf (row : Nat) (found : List Nat) (s : σ) :
    (callsOf accepts row found s).length = found.length := by
  induction found generalizing row s with
  | nil => rfl
  | cons column rest ih => rw [callsOf, List.length_cons, ih, List.length_cons]

end Assignment

open Assignment

/-- **The loop and the recursion.**  For any numbers of rows and columns, any question that reads
the scope and binds names, and any scope, the loop ends, in one way only: with all that plain
recursion comes to, the answer, the scope and the calls made, each with the scope that it saw; to
note the calls changes nothing.  If there is no assignment, the scope is the one at the start.  If
there is one, every row has its frame on top of it, in row order, with what its accepted call has
bound. -/
theorem loop_refines_recursion (rows columns : Nat) (q : Question) (s : Scope) :
    ∃ found t calls,
      (∀ r, Loop rows columns (noted q.ask) [] 0 0 (s, []) r ↔ r = (found, t, calls)) ∧
      assign rows columns (noted q.ask) (s, []) = (found, t, calls) ∧
      place (noted q.ask) columns rows [] 0 (s, []) = (found, t, calls) ∧
      assign rows columns q.ask s = (found, t) ∧
      (found = none → t = s) ∧
      ∀ chosen, found = some chosen →
        (callsOf q.ask 0 chosen s).Sublist calls ∧
        (∀ call ∈ callsOf q.ask 0 chosen s, call.accepted q = true) ∧
        t = s.pushAll ((callsOf q.ask 0 chosen s).map (Call.bound q)) ∧
        t.depth = s.depth + rows := by
  obtain ⟨calls, hrecorded, howed⟩ := place_records (undoes_ask q) columns rows [] 0 s []
  rcases hplain : place q.ask columns rows [] 0 s with ⟨found, t⟩
  rw [hplain] at hrecorded howed
  have hassign : assign rows columns q.ask s = (found, t) := by rw [assign_eq_place, hplain]
  have hnoted : assign rows columns (noted q.ask) (s, []) = (found, t, calls) := by
    rw [assign_eq_place, hrecorded]
    rfl
  refine ⟨found, t, calls, ?_, hnoted, hrecorded, hassign, ?_, ?_⟩
  · intro r
    rw [loop_iff, hnoted]
  · rintro rfl
    exact place_undone (undoes_ask q) hplain
  · rintro chosen rfl
    obtain ⟨hlen, -, -, hpath⟩ := path_of_assign_some q.ask (undoes_ask q) rows columns chosen s t
      hassign
    obtain ⟨haccepted, ht⟩ := accepted_of_path hpath
    refine ⟨howed chosen rfl, haccepted, ht, ?_⟩
    rw [ht, Scope.depth_pushAll, List.length_map, length_callsOf, hlen]

end HexRules
