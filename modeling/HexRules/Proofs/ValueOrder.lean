import HexRules.Eval.Value
import HexRules.Proofs.IdentifierOrder
import HexRules.Proofs.NumberOrder
import Mathlib.Data.List.Forall2
import Mathlib.Data.List.Lex

/-!
# The order of values

A value is written as a word over letters that are linearly ordered: one letter for a truth value,
a number or a piece, and for an array an opening letter, the words of its items and a closing letter.
The closing letter is less than all others, which go by kind, so no word is the beginning of another
one, and values compare as their words do.

    a.same b = true ↔ a.Equal b                                          (same_iff_equal)
    a.word = b.word ↔ a.same b = true                                    (word_eq_iff)
    a.word < b.word ↔ a.lt b = true                                      (word_lt_iff)
    one of a < b, a = b and b < a holds; < is transitive; = is an equivalence
                                                                         (values_totally_ordered)
-/

namespace HexRules

namespace Value

/-! ## Induction -/

/-- Induction over values: an array is reached from its items. -/
@[elab_as_elim]
theorem induction {motive : Value → Prop} (bool : ∀ b, motive (bool b))
    (number : ∀ n, motive (number n)) (piece : ∀ p, motive (piece p))
    (array : ∀ items, (∀ v ∈ items, motive v) → motive (array items)) (v : Value) : motive v :=
  @Value.rec motive (fun items => ∀ v ∈ items, motive v) bool number piece array
    (fun _ h => nomatch h) (fun _ _ hv hrest => List.forall_mem_cons.2 ⟨hv, hrest⟩) v

/-- Two values are of different kinds, or arrays that are reached from their items, or as simple as
each other. -/
@[elab_as_elim]
theorem induction₂ {motive : Value → Value → Prop} (other : ∀ a b, a.kind ≠ b.kind → motive a b)
    (bool : ∀ x y, motive (bool x) (bool y)) (number : ∀ m n, motive (number m) (number n))
    (piece : ∀ p q, motive (piece p) (piece q))
    (array : ∀ as bs, (∀ a ∈ as, ∀ b, motive a b) → motive (array as) (array bs)) (a b : Value) :
    motive a b := by
  by_cases hkind : a.kind = b.kind
  · induction a using Value.induction generalizing b with
    | bool x =>
      cases b with
      | bool y => exact bool x y
      | _ => cases hkind
    | number m =>
      cases b with
      | number n => exact number m n
      | _ => cases hkind
    | piece p =>
      cases b with
      | piece q => exact piece p q
      | _ => cases hkind
    | array as ih =>
      cases b with
      | array bs =>
        refine array as bs fun a ha b => ?_
        by_cases hitems : a.kind = b.kind
        · exact ih a ha b hitems
        · exact other a b hitems
      | _ => cases hkind
  · exact other a b hkind

theorem same_of_kind_ne {a b : Value} (h : a.kind ≠ b.kind) : a.same b = false := by
  cases a <;> cases b <;> first | rfl | exact absurd rfl h

theorem lt_of_kind_ne {a b : Value} (h : a.kind ≠ b.kind) : a.lt b = decide (a.kind < b.kind) := by
  cases a <;> cases b <;> first | rfl | exact absurd rfl h

/-! ## Equal content -/

/-- The same but for the forms of numbers: at any depth one number may stand for another one of its
exact value. -/
inductive Equal : Value → Value → Prop
  | bool (b : Bool) : Equal (bool b) (bool b)
  | number {m n : Number} (h : m.value = n.value) : Equal (number m) (number n)
  | piece (p : Option Piece) : Equal (piece p) (piece p)
  | array {as bs : List Value} (h : List.Forall₂ Equal as bs) : Equal (array as) (array bs)

theorem Equal.kind_eq {a b : Value} (h : a.Equal b) : a.kind = b.kind := by
  cases h <;> rfl

theorem sameItems_iff_equal {as bs : List Value}
    (h : ∀ a ∈ as, ∀ b, a.same b = true ↔ a.Equal b) :
    sameItems as bs = true ↔ List.Forall₂ Equal as bs := by
  induction as generalizing bs with
  | nil => cases bs <;> simp [sameItems]
  | cons a as ih =>
    cases bs with
    | nil => simp [sameItems]
    | cons b bs =>
      obtain ⟨ha, has⟩ := List.forall_mem_cons.1 h
      rw [sameItems, Bool.and_eq_true, List.forall₂_cons, ha, ih has]

theorem same_iff_equal (a b : Value) : a.same b = true ↔ a.Equal b := by
  induction a, b using induction₂ with
  | other a b hkind =>
    rw [same_of_kind_ne hkind]
    exact iff_of_false Bool.false_ne_true fun h => hkind h.kind_eq
  | bool x y =>
    rw [same, beq_iff_eq]
    constructor
    · rintro rfl
      exact .bool x
    · rintro ⟨⟩
      rfl
  | number m n =>
    rw [same, Number.same_iff]
    exact ⟨.number, fun h => by cases h; assumption⟩
  | piece p q =>
    rw [same, decide_eq_true_iff]
    constructor
    · rintro rfl
      exact .piece p
    · rintro ⟨⟩
      rfl
  | array as bs ih =>
    rw [same, sameItems_iff_equal ih]
    exact ⟨.array, fun h => by cases h; assumption⟩

/-! ## Letters -/

/-- A place among the kinds, a number and a piece; what does not matter is the least. -/
abbrev Letter := ℕ ×ₗ (WithBot (WithTop ℚ) ×ₗ WithBot (String ×ₗ String))

def letter (place : Nat) (number : WithBot (WithTop ℚ)) (piece : WithBot (String ×ₗ String)) :
    Letter := toLex (place, toLex (number, piece))

/-- What pieces are compared by, the empty piece among them. -/
def pieceKey : Option Piece → WithBot (String ×ₗ String)
  | none => ⊥
  | some p => p.key

section Letters

variable {i j : Nat} {x y : WithBot (WithTop ℚ)} {k l : WithBot (String ×ₗ String)}
  {p q : Option Piece}

theorem letter_inj : letter i x k = letter j y l ↔ i = j ∧ x = y ∧ k = l := by
  rw [letter, letter, toLex_inj, Prod.mk.injEq, toLex_inj, Prod.mk.injEq]

theorem letter_lt_iff : letter i x k < letter j y l ↔ i < j ∨ i = j ∧ (x < y ∨ x = y ∧ k < l) := by
  rw [letter, letter, Prod.Lex.toLex_lt_toLex, Prod.Lex.toLex_lt_toLex]

theorem letter_cons_lt_iff {xs ys : List Letter} : letter i x k :: xs < letter j y l :: ys ↔
    (i < j ∨ i = j ∧ (x < y ∨ x = y ∧ k < l)) ∨ (i = j ∧ x = y ∧ k = l) ∧ xs < ys := by
  rw [List.cons_lt_cons_iff, letter_lt_iff, letter_inj]

theorem pieceKey_inj : pieceKey p = pieceKey q ↔ p = q := by
  cases p <;> cases q <;> simp [pieceKey, Identifier.key_injective.eq_iff]

theorem pieceKey_lt_iff : pieceKey p < pieceKey q ↔ pieceLt p q = true := by
  cases p <;> cases q <;> simp [pieceKey, pieceLt, Identifier.lt_iff]

end Letters

/-! ## Words -/

mutual

def word : Value → List Letter
  | bool b => [letter 1 (if b then ⊤ else ⊥) ⊥]
  | number n => [letter 2 n.value ⊥]
  | piece p => [letter 3 ⊥ (pieceKey p)]
  | array items => letter 4 ⊥ ⊥ :: words items

def words : List Value → List Letter
  | [] => [letter 0 ⊥ ⊥]
  | v :: rest => word v ++ words rest

end

/-- The first letter tells the kind. -/
theorem exists_word_eq (v : Value) : ∃ x k rest, v.word = letter (v.kind + 1) x k :: rest := by
  cases v <;> exact ⟨_, _, _, rfl⟩

section Compare

variable {a b : Value} {as bs : List Value} {xs ys : List Letter}

theorem words_append_eq_iff
    (h : ∀ a ∈ as, ∀ b xs ys, a.word ++ xs = b.word ++ ys ↔ a.same b = true ∧ xs = ys) :
    words as ++ xs = words bs ++ ys ↔ sameItems as bs = true ∧ xs = ys := by
  induction as generalizing bs with
  | nil =>
    cases bs with
    | nil => simp [words, sameItems]
    | cons b bs =>
      obtain ⟨x, k, rest, hb⟩ := exists_word_eq b
      simp [words, sameItems, hb, letter_inj]
  | cons a as ih =>
    obtain ⟨ha, has⟩ := List.forall_mem_cons.1 h
    cases bs with
    | nil =>
      obtain ⟨x, k, rest, ha⟩ := exists_word_eq a
      simp [words, sameItems, ha, letter_inj]
    | cons b bs =>
      rw [words, words, List.append_assoc, List.append_assoc, ha, ih has, sameItems,
        Bool.and_eq_true, and_assoc]

/-- Where words go on, they are told apart all the same. -/
theorem word_append_eq_iff (a b : Value) (xs ys : List Letter) :
    a.word ++ xs = b.word ++ ys ↔ a.same b = true ∧ xs = ys := by
  induction a, b using induction₂ generalizing xs ys with
  | other a b hkind =>
    obtain ⟨x, k, as, ha⟩ := exists_word_eq a
    obtain ⟨y, l, bs, hb⟩ := exists_word_eq b
    simp [ha, hb, letter_inj, same_of_kind_ne hkind, hkind]
  | bool x y => cases x <;> cases y <;> simp [word, same, letter_inj]
  | number m n => simp [word, same, letter_inj, Number.same_iff]
  | piece p q => simp [word, same, letter_inj, pieceKey_inj]
  | array as bs ih => simp [word, same, words_append_eq_iff ih]

theorem word_eq_iff (a b : Value) : a.word = b.word ↔ a.same b = true := by
  simpa using word_append_eq_iff a b [] []

theorem words_append_lt_iff
    (h : ∀ a ∈ as, ∀ b xs ys,
      a.word ++ xs < b.word ++ ys ↔ a.lt b = true ∨ a.same b = true ∧ xs < ys) :
    words as ++ xs < words bs ++ ys ↔
      ltItems as bs = true ∨ sameItems as bs = true ∧ xs < ys := by
  induction as generalizing bs with
  | nil =>
    cases bs with
    | nil => simp [words, ltItems, sameItems]
    | cons b bs =>
      obtain ⟨x, k, rest, hb⟩ := exists_word_eq b
      simp [words, ltItems, sameItems, hb, letter_cons_lt_iff]
  | cons a as ih =>
    obtain ⟨ha, has⟩ := List.forall_mem_cons.1 h
    cases bs with
    | nil =>
      obtain ⟨x, k, rest, ha⟩ := exists_word_eq a
      simp [words, ltItems, sameItems, ha, letter_cons_lt_iff]
    | cons b bs =>
      rw [words, words, List.append_assoc, List.append_assoc, ha, ih has, ltItems, sameItems]
      by_cases hsame : a.same b = true
      · -- the words are equal, so neither is less
        have hlt : ¬ a.lt b = true := by
          intro hlt
          have hword := (ha b [] []).2 (.inl hlt)
          rw [(word_eq_iff a b).2 hsame] at hword
          exact lt_irrefl _ hword
        simp [hsame, hlt]
      · simp [hsame]

theorem word_append_lt_iff (a b : Value) (xs ys : List Letter) :
    a.word ++ xs < b.word ++ ys ↔ a.lt b = true ∨ a.same b = true ∧ xs < ys := by
  induction a, b using induction₂ generalizing xs ys with
  | other a b hkind =>
    obtain ⟨x, k, as, ha⟩ := exists_word_eq a
    obtain ⟨y, l, bs, hb⟩ := exists_word_eq b
    simp [ha, hb, letter_cons_lt_iff, same_of_kind_ne hkind, lt_of_kind_ne hkind, hkind]
  | bool x y => cases x <;> cases y <;> simp [word, lt, same, letter_cons_lt_iff]
  | number m n =>
    simp [word, lt, same, letter_cons_lt_iff, Number.same_iff, Number.lt_iff]
  | piece p q =>
    simp [word, lt, same, letter_cons_lt_iff, pieceKey_inj, pieceKey_lt_iff]
  | array as bs ih => simp [word, lt, same, words_append_lt_iff ih]

theorem word_lt_iff (a b : Value) : a.word < b.word ↔ a.lt b = true := by
  simpa using word_append_lt_iff a b [] []

end Compare

/-! ## Comparing -/

theorem same_eq_decide (a b : Value) : a.same b = decide (a.word = b.word) := by
  rw [Bool.eq_iff_iff, decide_eq_true_iff, word_eq_iff]

theorem lt_eq_decide (a b : Value) : a.lt b = decide (a.word < b.word) := by
  rw [Bool.eq_iff_iff, decide_eq_true_iff, word_lt_iff]

theorem le_iff (a b : Value) : a.le b = true ↔ a.word ≤ b.word := by
  rw [le, Bool.or_eq_true, ← word_lt_iff, ← word_eq_iff, le_iff_lt_or_eq]

theorem gt_iff (a b : Value) : a.gt b = true ↔ b.word < a.word := by
  rw [gt, lt_eq_decide, same_eq_decide]
  rcases lt_trichotomy a.word b.word with h | h | h
  · simp [h, h.not_gt]
  · simp [h]
  · simp [h, h.not_gt, h.ne']

theorem ge_iff (a b : Value) : a.ge b = true ↔ b.word ≤ a.word := by
  rw [ge, lt_eq_decide]
  simp

/-- Of two values one is less, or they are equal, and only one of this is so. -/
theorem count_lt_same_gt (a b : Value) : [a.lt b, a.same b, b.lt a].count true = 1 := by
  rw [lt_eq_decide, same_eq_decide, lt_eq_decide]
  rcases lt_trichotomy a.word b.word with h | h | h
  · simp [h, h.not_gt, h.ne]
  · simp [h]
  · simp [h, h.not_gt, h.ne']

theorem equivalence_same : Equivalence fun a b : Value => a.same b = true := by
  simp only [← word_eq_iff]
  exact ⟨fun _ => rfl, Eq.symm, Eq.trans⟩

/-- Inside arrays too it is the value of a number that counts, and not its form. -/
example : (array [array [number (.int 2)]]).same
    (array [array [number (.float (.finite false 1 1))]]) = true := by
  decide +kernel

end Value

/-- **Values are totally ordered.**  No value is less than itself, what is less than a lesser value is
less, and of two values one is less or they are equal, never two of this at a time.  The other
comparisons say what they should.  Equality is an equivalence; values are equal when they are the
same but for the forms of numbers, at any depth, so they are of one kind. -/
theorem values_totally_ordered :
    (∀ a : Value, a.lt a = false) ∧
    (∀ a b c : Value, a.lt b = true → b.lt c = true → a.lt c = true) ∧
    (∀ a b : Value, [a.lt b, a.same b, b.lt a].count true = 1) ∧
    (∀ a b : Value, (a.le b = true ↔ a.lt b = true ∨ a.same b = true) ∧
      (a.gt b = true ↔ b.lt a = true) ∧ (a.ge b = true ↔ b.lt a = true ∨ a.same b = true)) ∧
    (Equivalence fun a b : Value => a.same b = true) ∧
    (∀ a b : Value, a.same b = true ↔ a.Equal b) ∧
    ∀ a b : Value, a.same b = true → a.kind = b.kind := by
  refine ⟨fun a => ?_, fun a b c hab hbc => ?_, Value.count_lt_same_gt, fun a b => ⟨?_, ?_, ?_⟩,
    Value.equivalence_same, Value.same_iff_equal, fun a b h => ?_⟩
  · rw [Value.lt_eq_decide]
    simp
  · rw [← Value.word_lt_iff] at hab hbc ⊢
    exact hab.trans hbc
  · rw [Value.le_iff, ← Value.word_lt_iff, ← Value.word_eq_iff, le_iff_lt_or_eq]
  · rw [Value.gt_iff, Value.word_lt_iff]
  · rw [Value.ge_iff, ← Value.word_lt_iff, ← Value.word_eq_iff, le_iff_lt_or_eq, eq_comm]
  · exact ((Value.same_iff_equal a b).1 h).kind_eq

end HexRules
