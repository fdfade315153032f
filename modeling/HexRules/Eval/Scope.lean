import HexRules.Eval.Value
import HexRules.Table

/-!
# Scopes

A scope is a stack of frames that bind names to values; inner frames shadow outer ones.  Pushing
a frame only counts it on the frame below; a frame comes into being when a name is first bound in
it.  The base frame is never dropped.

    (s.push).depth = s.depth + 1                                         (depth_push)
    0 < s.depth → (s.pop).depth + 1 = s.depth                            (depth_pop)
    s.unwind d = if d < s.depth then s.pop.unwind d else s               (unwind_eq)
-/

namespace HexRules

/-- Bindings, with a count of the frames pushed on top that bind nothing yet. -/
structure Frame where
  bindings : List (String × Value)
  pending : Nat

/-- A stack of frames: the innermost, then the ones below it, the base frame last. -/
structure Scope where
  top : Frame
  below : List Frame

namespace Scope

/-- Only the base frame, with the given bindings. -/
def ofBindings (base : List (String × Value)) : Scope := ⟨⟨base, 0⟩, []⟩

def empty : Scope := ofBindings []

/-- The frames from the base frame up. -/
def snapshot (s : Scope) : List Frame := (s.top :: s.below).reverse

/-- The value bound to a name in the innermost of some frames that bind it. -/
def lookup (name : String) : List Frame → Option Value
  | [] => none
  | f :: rest =>
    match findEntry name f.bindings with
    | some v => some v
    | none => lookup name rest

def get? (s : Scope) (name : String) : Option Value := lookup name (s.top :: s.below)

def push (s : Scope) : Scope :=
  { s with top := { s.top with pending := s.top.pending + 1 } }

/-- Bind a name in the innermost frame, which comes into being if it is still only counted. -/
def add (s : Scope) (name : String) (value : Value) : Scope :=
  match s.top.pending with
  | 0 => { s with top := { s.top with bindings := putEntry name value s.top.bindings } }
  | n + 1 => ⟨⟨[(name, value)], 0⟩, { s.top with pending := n } :: s.below⟩

/-- Drop the innermost frame, unless it is the base frame. -/
def pop (s : Scope) : Scope :=
  match s.top.pending with
  | 0 =>
    match s.below with
    | [] => s
    | f :: rest => ⟨f, rest⟩
  | n + 1 => { s with top := { s.top with pending := n } }

/-- Frames that are only counted. -/
def pendingSum (fs : List Frame) : Nat := fs.foldr (fun f n => f.pending + n) 0

/-- Number of frames pushed above the base frame, in being or only counted. -/
def depth (s : Scope) : Nat := s.below.length + pendingSum (s.top :: s.below)

/-- Drop frames until at most `d` are left above the base frame. -/
def unwind (s : Scope) (d : Nat) : Scope := Nat.repeat pop (s.depth - d) s

/-- Run `body` in a frame of its own, and drop that frame and all that `body` left on it. -/
def frame {β : Type} (body : Scope → β × Scope) (s : Scope) : β × Scope :=
  let result := body s.push
  (result.1, result.2.unwind s.depth)

/-! ## Lemmas -/

@[simp] theorem depth_push (s : Scope) : s.push.depth = s.depth + 1 := by
  simp only [depth, push, pendingSum, List.foldr_cons]
  omega

@[simp] theorem depth_add (s : Scope) (name : String) (value : Value) :
    (s.add name value).depth = s.depth := by
  unfold add
  split
  · simp [depth, pendingSum]
  · rename_i n h
    simp only [depth, pendingSum, List.foldr_cons, List.length_cons, h]
    omega

theorem depth_pop (s : Scope) (h : 0 < s.depth) : s.pop.depth + 1 = s.depth := by
  unfold pop
  split
  · rename_i ht
    split
    · rename_i hb
      simp [depth, pendingSum, ht, hb] at h
    · rename_i hb
      simp only [depth, pendingSum, hb, List.foldr_cons, List.length_cons, ht]
      omega
  · rename_i n ht
    simp only [depth, pendingSum, List.foldr_cons, ht]
    omega

theorem repeat_succ_pop (n : Nat) (s : Scope) :
    Nat.repeat pop (n + 1) s = Nat.repeat pop n s.pop := by
  induction n with
  | zero => rfl
  | succ n ih => rw [Nat.repeat, ih]; rfl

theorem unwind_eq (s : Scope) (d : Nat) :
    s.unwind d = if d < s.depth then s.pop.unwind d else s := by
  unfold unwind
  split
  · rename_i h
    have hp := depth_pop s (by omega)
    rw [show s.depth - d = (s.pop.depth - d) + 1 by omega, repeat_succ_pop]
  · rename_i h
    rw [show s.depth - d = 0 by omega]
    rfl

end Scope

end HexRules
