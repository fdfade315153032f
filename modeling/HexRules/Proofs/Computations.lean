import Mathlib.Data.List.Forall2

/-!
# Computations that can fail

Ways to speak of a computation that ends with a value or an error: `Ends P Q x` says that a value
satisfies `P` and an error `Q`, `Yields P x` that a value satisfies `P`, and `Succeeds x` that there
is a value; `Agree R Q x y` says that two computations end alike, with values that `R` relates or
errors that `Q` relates.  Each is read off the steps of the computation.

    Ends P Q x → (∀ a, P a → Ends R Q (f a)) → Ends R Q (x >>= f)        (Ends.bind)
    Agree R Q x y → (∀ a b, R a b → Agree R' Q (f a) (g b)) → Agree R' Q (x >>= f) (y >>= g)
                                                                         (Agree.bind)
    Succeeds (x >>= f) ↔ ∃ a, x = .ok a ∧ Succeeds (f a)                 (Succeeds.bind_iff)
    Succeeds (xs.mapM f) ↔ ∀ x ∈ xs, Succeeds (f x)                      (Succeeds.mapM_iff)
-/

namespace HexRules

/-! ## Values -/

theorem exists_of_bind_ok {α β ε : Type} {x : Except ε α} {f : α → Except ε β} {b : β}
    (h : x >>= f = .ok b) : ∃ a, x = .ok a ∧ f a = .ok b := by
  cases x with
  | error e => cases h
  | ok a => exact ⟨a, rfl, h⟩

theorem exists_of_map_ok {α β ε : Type} {x : Except ε α} {f : α → β} {b : β}
    (h : x.map f = .ok b) : ∃ a, x = .ok a ∧ f a = b := by
  cases x with
  | error e => cases h
  | ok a => exact ⟨a, rfl, Except.ok.inj h⟩

/-- A list of computations that all succeed, one by one. -/
theorem forall₂_of_mapM {α β ε : Type} (f : α → Except ε β) (xs : List α) (ys : List β)
    (h : xs.mapM f = .ok ys) : List.Forall₂ (fun x y => f x = .ok y) xs ys := by
  induction xs generalizing ys with
  | nil =>
    cases h
    exact .nil
  | cons x rest ih =>
    rw [List.mapM_cons] at h
    obtain ⟨y, hx, h⟩ := exists_of_bind_ok h
    obtain ⟨tail, hrest, h⟩ := exists_of_bind_ok h
    cases h
    exact .cons hx (ih tail hrest)

/-! ## Ends of a computation -/

/-- A value satisfies `P`, an error `Q`. -/
def Ends {α ε : Type} (P : α → Prop) (Q : ε → Prop) : Except ε α → Prop
  | .ok a => P a
  | .error e => Q e

namespace Ends

variable {α β ε : Type} {P : α → Prop} {R : β → Prop} {Q : ε → Prop}

theorem bind {x : Except ε α} {f : α → Except ε β} (hx : Ends P Q x)
    (hf : ∀ a, P a → Ends R Q (f a)) : Ends R Q (x >>= f) := by
  cases x with
  | error e => exact hx
  | ok a => exact hf a hx

theorem of_ok {x : Except ε α} {a : α} (h : Ends P Q x) (hx : x = .ok a) : P a := by
  subst hx
  exact h

theorem of_error {x : Except ε α} {e : ε} (h : Ends P Q x) (hx : x = .error e) : Q e := by
  subst hx
  exact h

theorem imp {P' : α → Prop} {Q' : ε → Prop} {x : Except ε α} (h : Ends P Q x)
    (hP : ∀ a, P a → P' a) (hQ : ∀ e, Q e → Q' e) : Ends P' Q' x := by
  cases x with
  | error e => exact hQ e h
  | ok a => exact hP a h

theorem mapM {f : α → Except ε β} {xs : List α} (h : ∀ x ∈ xs, Ends R Q (f x)) :
    Ends (fun ys => ∀ y ∈ ys, R y) Q (xs.mapM f) := by
  induction xs with
  | nil => exact fun y hy => absurd hy List.not_mem_nil
  | cons x rest ih =>
    rw [List.mapM_cons]
    refine (h x List.mem_cons_self).bind fun y hy => ?_
    refine (ih fun x' hx' => h x' (List.mem_cons_of_mem x hx')).bind fun ys hys => ?_
    exact List.forall_mem_cons.2 ⟨hy, hys⟩

theorem foldlM {f : β → α → Except ε β} {xs : List α} {b : β} (hb : R b)
    (hf : ∀ b, R b → ∀ x ∈ xs, Ends R Q (f b x)) : Ends R Q (xs.foldlM f b) := by
  induction xs generalizing b with
  | nil => exact hb
  | cons x rest ih =>
    rw [List.foldlM_cons]
    refine (hf b hb x List.mem_cons_self).bind fun b' hb' => ?_
    exact ih hb' fun b hb x' hx' => hf b hb x' (List.mem_cons_of_mem x hx')

end Ends

/-- A value satisfies `P`; of errors nothing is said. -/
abbrev Yields {α ε : Type} (P : α → Prop) (x : Except ε α) : Prop := Ends P (fun _ => True) x

theorem Yields.of_forall {α ε : Type} {P : α → Prop} {x : Except ε α}
    (h : ∀ a, x = .ok a → P a) : Yields P x := by
  cases x with
  | error e => trivial
  | ok a => exact h a rfl

theorem yields_true {α ε : Type} (x : Except ε α) : Yields (fun _ => True) x :=
  Yields.of_forall fun _ _ => trivial

/-! ## Two computations -/

/-- Values that `R` relates, or errors that `Q` relates. -/
def Agree {α β ε : Type} (R : α → β → Prop) (Q : ε → ε → Prop) :
    Except ε α → Except ε β → Prop
  | .ok a, .ok b => R a b
  | .error d, .error e => Q d e
  | _, _ => False

namespace Agree

variable {α α' β β' ε : Type} {R : α → β → Prop} {R' : α' → β' → Prop} {Q : ε → ε → Prop}

theorem bind {x : Except ε α} {y : Except ε β} {f : α → Except ε α'} {g : β → Except ε β'}
    (h : Agree R Q x y) (hf : ∀ a b, R a b → Agree R' Q (f a) (g b)) :
    Agree R' Q (x >>= f) (y >>= g) := by
  cases x with
  | error d =>
    cases y with
    | error e => exact h
    | ok b => cases h
  | ok a =>
    cases y with
    | error e => cases h
    | ok b => exact hf a b h

theorem eq {x y : Except ε α} (h : Agree Eq Q x y) (hQ : ∀ d e, Q d e → d = e) : x = y := by
  cases x with
  | error d =>
    cases y with
    | error e => exact congrArg Except.error (hQ d e h)
    | ok b => cases h
  | ok a =>
    cases y with
    | error e => cases h
    | ok b => exact congrArg Except.ok h

end Agree

/-! ## Success -/

/-- The computation gives a value. -/
def Succeeds {α ε : Type} (x : Except ε α) : Prop := ∃ a, x = .ok a

namespace Succeeds

variable {α β ε : Type}

@[simp] theorem of_ok (a : α) : Succeeds (.ok a : Except ε α) := ⟨a, rfl⟩

@[simp] theorem not_error (e : ε) : ¬ Succeeds (.error e : Except ε α) := by
  rintro ⟨a, h⟩
  cases h

theorem bind_iff {x : Except ε α} {f : α → Except ε β} :
    Succeeds (x >>= f) ↔ ∃ a, x = .ok a ∧ Succeeds (f a) := by
  cases x with
  | error e =>
    constructor
    · intro h
      exact absurd h (not_error e)
    · rintro ⟨a, h, -⟩
      cases h
  | ok a =>
    constructor
    · intro h
      exact ⟨a, rfl, h⟩
    · rintro ⟨a', h, ha'⟩
      cases h
      exact ha'

/-- What comes after the computation cannot fail. -/
theorem bind_iff_of_forall {x : Except ε α} {f : α → Except ε β} (hf : ∀ a, Succeeds (f a)) :
    Succeeds (x >>= f) ↔ Succeeds x := by
  rw [bind_iff]
  constructor
  · rintro ⟨a, h, -⟩
    exact ⟨a, h⟩
  · rintro ⟨a, h⟩
    exact ⟨a, h, hf a⟩

/-- Two computations of which the second does not depend on the first. -/
theorem bind_iff_and {x : Except ε α} {f : α → Except ε β} {P : Prop}
    (hf : ∀ a, Succeeds (f a) ↔ P) : Succeeds (x >>= f) ↔ Succeeds x ∧ P := by
  rw [bind_iff]
  constructor
  · rintro ⟨a, h, ha⟩
    exact ⟨⟨a, h⟩, (hf a).1 ha⟩
  · rintro ⟨⟨a, h⟩, hp⟩
    exact ⟨a, h, (hf a).2 hp⟩

theorem mapM_iff {f : α → Except ε β} {xs : List α} :
    Succeeds (xs.mapM f) ↔ ∀ x ∈ xs, Succeeds (f x) := by
  induction xs with
  | nil =>
    constructor
    · intro _ x hx
      cases hx
    · intro _
      exact of_ok []
  | cons x rest ih =>
    have hrest : ∀ y, Succeeds (do let ys ← rest.mapM f; pure (y :: ys)) ↔
        ∀ x ∈ rest, Succeeds (f x) :=
      fun y => (bind_iff_of_forall fun ys => of_ok (y :: ys)).trans ih
    rw [List.mapM_cons, bind_iff_and hrest, List.forall_mem_cons]

end Succeeds

end HexRules
