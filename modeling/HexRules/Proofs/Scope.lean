import HexRules.Eval.Scope

/-!
# Frames on a scope

How pushing, binding, dropping and unwinding act on one another, whether a frame is in being or
only counted.  `s.Extends t` says that `t` is `s` with frames on top: unwinding to the depth of `s`
gives back `s` itself, counts included.

    s.push.pop = s                                                       (pop_push)
    0 < s.depth → (s.add n v).pop = s.pop                                (pop_add)
    (s.unwind d).depth = min d s.depth                                   (depth_unwind)
    s.Extends (body s.push).2 → (s.frame body).2 = s                     (frame_eq_self)
    (s.bindAll bs).get? n = (findEntry n bs.reverse).or (s.get? n)       (get?_bindAll)
-/

namespace HexRules

/-- A name with the value it is bound to. -/
abbrev Binding := String × Value

theorem findEntry_append {κ β : Type} [DecidableEq κ] (k : κ) (xs ys : List (κ × β)) :
    findEntry k (xs ++ ys) = (findEntry k xs).or (findEntry k ys) := by
  induction xs with
  | nil => rfl
  | cons e rest ih =>
    by_cases h : e.1 = k
    · simp [findEntry, h]
    · simp [findEntry, h, ih]

namespace Scope

/-! ## Dropping frames -/

theorem pop_push (s : Scope) : s.push.pop = s := by
  obtain ⟨⟨bindings, pending⟩, below⟩ := s
  rfl

/-- What is bound in a frame goes when the frame is dropped, also when binding brought the frame
into being. -/
theorem pop_add (s : Scope) (name : String) (value : Value) (h : 0 < s.depth) :
    (s.add name value).pop = s.pop := by
  obtain ⟨⟨bindings, pending⟩, below⟩ := s
  cases pending with
  | succ n => rfl
  | zero =>
    cases below with
    | nil => simp [depth, pendingSum] at h
    | cons f rest => rfl

theorem unwind_eq_self (s : Scope) (d : Nat) (h : s.depth ≤ d) : s.unwind d = s := by
  rw [unwind_eq, if_neg (by omega)]

theorem unwind_pop (s : Scope) (d : Nat) (h : d < s.depth) : s.pop.unwind d = s.unwind d := by
  rw [unwind_eq s d, if_pos h]

theorem unwind_push (s : Scope) (d : Nat) (h : d ≤ s.depth) : s.push.unwind d = s.unwind d := by
  have hd : d < s.push.depth := by rw [depth_push]; omega
  rw [← unwind_pop s.push d hd, pop_push]

theorem unwind_add (s : Scope) (name : String) (value : Value) (d : Nat) (h : d < s.depth) :
    (s.add name value).unwind d = s.unwind d := by
  have hd : d < (s.add name value).depth := by rw [depth_add]; exact h
  rw [← unwind_pop _ d hd, pop_add s name value (by omega), unwind_pop s d h]

theorem depth_unwind (s : Scope) (d : Nat) : (s.unwind d).depth = min d s.depth := by
  generalize hk : s.depth - d = k
  induction k generalizing s with
  | zero =>
    rw [unwind_eq_self s d (by omega)]
    omega
  | succ k ih =>
    have hp := depth_pop s (by omega)
    rw [← unwind_pop s d (by omega), ih s.pop (by omega)]
    omega

theorem unwind_unwind (s : Scope) (d e : Nat) (h : e ≤ d) :
    (s.unwind d).unwind e = s.unwind e := by
  generalize hk : s.depth - d = k
  induction k generalizing s with
  | zero => rw [unwind_eq_self s d (by omega)]
  | succ k ih =>
    have hp := depth_pop s (by omega)
    rw [← unwind_pop s d (by omega), ih s.pop (by omega), unwind_pop s e (by omega)]

/-! ## Scopes with frames on top -/

/-- `t` is `s` with frames on top of it, in which anything may be bound. -/
structure Extends (s t : Scope) : Prop where
  depth_le : s.depth ≤ t.depth
  unwind_depth : t.unwind s.depth = s

namespace Extends

variable {s t u : Scope}

theorem refl (s : Scope) : s.Extends s :=
  ⟨Nat.le_refl _, unwind_eq_self s _ (Nat.le_refl _)⟩

theorem trans (h : s.Extends t) (h' : t.Extends u) : s.Extends u := by
  refine ⟨Nat.le_trans h.depth_le h'.depth_le, ?_⟩
  rw [← unwind_unwind u t.depth s.depth h.depth_le, h'.unwind_depth, h.unwind_depth]

theorem push (h : s.Extends t) : s.Extends t.push := by
  have hd := h.depth_le
  refine ⟨by rw [depth_push]; omega, ?_⟩
  rw [unwind_push t s.depth hd, h.unwind_depth]

theorem add (h : s.Extends t) (hd : s.depth < t.depth) (name : String) (value : Value) :
    s.Extends (t.add name value) := by
  refine ⟨by rw [depth_add]; omega, ?_⟩
  rw [unwind_add t name value s.depth hd, h.unwind_depth]

end Extends

/-- A body that leaves its own frame and everything below it in place leaves no trace. -/
theorem frame_eq_self {β : Type} (body : Scope → β × Scope) (s : Scope)
    (h : s.Extends (body s.push).2) : (s.frame body).2 = s :=
  h.unwind_depth

/-! ## Binding many names -/

theorem get?_push (s : Scope) (name : String) : s.push.get? name = s.get? name := rfl

theorem get?_add (s : Scope) (name n : String) (value : Value) :
    (s.add name value).get? n = if n = name then some value else s.get? n := by
  obtain ⟨⟨bindings, pending⟩, below⟩ := s
  cases pending with
  | zero =>
    simp only [add, get?, lookup, findEntry_putEntry]
    by_cases h : n = name <;> simp [h]
  | succ k =>
    simp only [add, get?, lookup, findEntry, eq_comm (a := name)]
    by_cases h : n = name <;> simp [h]

/-- Bind names in the innermost frame, one after the other. -/
def bindAll (s : Scope) (bs : List Binding) : Scope := bs.foldl (fun s b => s.add b.1 b.2) s

/-- Push a frame for every list of bindings, and bind them in it. -/
def pushAll (s : Scope) (bss : List (List Binding)) : Scope :=
  bss.foldl (fun s bs => s.push.bindAll bs) s

/-- The scope with bindings laid over it in one frame. -/
def overlay (s : Scope) (bs : List Binding) : Scope := s.push.bindAll bs

theorem bindAll_append (s : Scope) (xs ys : List Binding) :
    s.bindAll (xs ++ ys) = (s.bindAll xs).bindAll ys := by
  rw [bindAll, List.foldl_append]
  rfl

theorem get?_bindAll (s : Scope) (bs : List Binding) (name : String) :
    (s.bindAll bs).get? name = (findEntry name bs.reverse).or (s.get? name) := by
  induction bs generalizing s with
  | nil => rfl
  | cons b rest ih =>
    show ((s.add b.1 b.2).bindAll rest).get? name = _
    rw [ih, get?_add, List.reverse_cons, findEntry_append, Option.or_assoc]
    congr 1
    by_cases h : name = b.1
    · simp [findEntry, h]
    · simp [findEntry, h, Ne.symm h]

theorem get?_pushAll (s : Scope) (bss : List (List Binding)) (name : String) :
    (s.pushAll bss).get? name = (findEntry name bss.flatten.reverse).or (s.get? name) := by
  induction bss generalizing s with
  | nil => rfl
  | cons bs rest ih =>
    show ((s.push.bindAll bs).pushAll rest).get? name = _
    rw [ih, get?_bindAll, get?_push, List.flatten_cons, List.reverse_append, findEntry_append,
      Option.or_assoc]

theorem get?_overlay (s : Scope) (bs : List Binding) (name : String) :
    (s.overlay bs).get? name = (findEntry name bs.reverse).or (s.get? name) := by
  rw [overlay, get?_bindAll, get?_push]

theorem pop_bindAll (s : Scope) (bs : List Binding) (h : 0 < s.depth) :
    (s.bindAll bs).pop = s.pop := by
  induction bs generalizing s with
  | nil => rfl
  | cons b rest ih =>
    show ((s.add b.1 b.2).bindAll rest).pop = _
    rw [ih (s.add b.1 b.2) (by rw [depth_add]; exact h), pop_add s b.1 b.2 h]

@[simp] theorem depth_bindAll (s : Scope) (bs : List Binding) :
    (s.bindAll bs).depth = s.depth := by
  induction bs generalizing s with
  | nil => rfl
  | cons b rest ih => exact (ih (s.add b.1 b.2)).trans (depth_add s b.1 b.2)

@[simp] theorem depth_pushAll (s : Scope) (bss : List (List Binding)) :
    (s.pushAll bss).depth = s.depth + bss.length := by
  induction bss generalizing s with
  | nil => rfl
  | cons bs rest ih =>
    have hrest := ih (s.push.bindAll bs)
    rw [depth_bindAll, depth_push, Nat.add_right_comm] at hrest
    exact hrest

theorem Extends.bindAll {s t : Scope} (h : s.Extends t) (hd : s.depth < t.depth)
    (bs : List Binding) : s.Extends (t.bindAll bs) := by
  induction bs generalizing t with
  | nil => exact h
  | cons b rest ih => exact ih (h.add hd b.1 b.2) (by rw [depth_add]; exact hd)

theorem Extends.pushAll {s t : Scope} (h : s.Extends t) (bss : List (List Binding)) :
    s.Extends (t.pushAll bss) := by
  induction bss generalizing t with
  | nil => exact h
  | cons bs rest ih =>
    have hd := h.depth_le
    exact ih (h.push.bindAll (by rw [depth_push]; omega) bs)

end Scope

end HexRules
