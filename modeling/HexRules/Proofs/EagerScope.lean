import HexRules.Matching.Assignment
import HexRules.Proofs.Scope
import Mathlib.Data.List.Forall2

/-!
# Scopes as plain stacks of frames

An eager scope has every pushed frame in being: pushing puts an empty frame on top, binding writes
to the top frame, dropping removes the top frame unless it is the base frame, and a name is looked
up from the top.  `s.eager` spreads a scope out into such a stack, every frame followed by the
frames that are only counted on it.

    s.push.eager = s.eager.push                                          (eager_push)
    (s.add n v).eager = s.eager.add n v                                  (eager_add)
    s.pop.eager = s.eager.pop                                            (eager_pop)
    (s.unwind d).eager = s.eager.unwind d                                (eager_unwind)
    script.run s.eager = the run of script on s, spread out              (run_eager)

So scripts of scope operations, blocks and failures in them included, cannot tell the two apart
(`script_refines_eager`).
-/

namespace HexRules

/-! ## Eager scopes -/

/-- Frames of bindings, the innermost first; the base frame is always there. -/
@[ext] structure EagerScope where
  frames : List (List Binding)
  frames_ne_nil : frames ≠ []

namespace EagerScope

def ofBindings (base : List Binding) : EagerScope := ⟨[base], by simp⟩

/-- The frames from the base frame up. -/
def snapshot (s : EagerScope) : List (List Binding) := s.frames.reverse

/-- Number of frames above the base frame. -/
def depth (s : EagerScope) : Nat := s.frames.length - 1

/-- The value bound to a name in the innermost frame that binds it. -/
def get? (s : EagerScope) (name : String) : Option Value := s.frames.findSome? (findEntry name)

def push (s : EagerScope) : EagerScope := ⟨[] :: s.frames, by simp⟩

/-- Bind a name in the innermost frame. -/
def add (s : EagerScope) (name : String) (value : Value) : EagerScope :=
  ⟨putEntry name value (s.frames.head s.frames_ne_nil) :: s.frames.tail, by simp⟩

/-- Drop the innermost frame, unless it is the base frame. -/
def pop (s : EagerScope) : EagerScope := if h : s.frames.tail = [] then s else ⟨s.frames.tail, h⟩

/-- Keep the base frame and at most `d` frames above it. -/
def unwind (s : EagerScope) (d : Nat) : EagerScope :=
  ⟨s.frames.drop (s.depth - d), by
    have h := List.length_pos_iff.2 s.frames_ne_nil
    simp only [ne_eq, List.drop_eq_nil_iff, depth]
    omega⟩

theorem frames_unwind (s : EagerScope) (d : Nat) :
    (s.unwind d).frames = s.frames.drop (s.depth - d) := rfl

/-- Run `body` in a frame of its own, and drop that frame and all that `body` left on it. -/
def frame {β : Type} (body : EagerScope → β × EagerScope) (s : EagerScope) : β × EagerScope :=
  let result := body s.push
  (result.1, result.2.unwind s.depth)

end EagerScope

/-! ## Spreading out -/

/-- A frame, below the empty frames that are only counted on it. -/
def Frame.spread (f : Frame) : List (List Binding) := List.replicate f.pending [] ++ [f.bindings]

/-- A frame, followed by the empty frames that are only counted on it. -/
def Frame.expand (f : Frame) : List (List Binding) := f.bindings :: List.replicate f.pending []

namespace Scope

/-- The scope with all its frames in being. -/
def eager (s : Scope) : EagerScope :=
  ⟨(s.top :: s.below).flatMap Frame.spread, by simp [Frame.spread]⟩

theorem snapshot_eager (s : Scope) : s.eager.snapshot = s.snapshot.flatMap Frame.expand := by
  show ((s.top :: s.below).flatMap Frame.spread).reverse = _
  rw [List.reverse_flatMap, snapshot]
  congr 1
  funext f
  simp [Frame.spread, Frame.expand]

theorem length_spread (fs : List Frame) :
    (fs.flatMap Frame.spread).length = fs.length + pendingSum fs := by
  induction fs with
  | nil => rfl
  | cons f rest ih =>
    rw [List.flatMap_cons, List.length_append, ih]
    simp only [Frame.spread, pendingSum, List.length_append, List.length_replicate,
      List.length_cons, List.length_nil, List.foldr_cons]
    omega

theorem depth_eager (s : Scope) : s.eager.depth = s.depth := by
  show ((s.top :: s.below).flatMap Frame.spread).length - 1 = s.depth
  rw [length_spread, List.length_cons, depth]
  omega

theorem findSome?_spread (f : Frame) (name : String) :
    f.spread.findSome? (findEntry name) = findEntry name f.bindings := by
  obtain ⟨bindings, pending⟩ := f
  induction pending with
  | zero => simp [Frame.spread]
  | succ n ih => exact ih

theorem get?_eager (s : Scope) (name : String) : s.eager.get? name = s.get? name := by
  show ((s.top :: s.below).flatMap Frame.spread).findSome? (findEntry name) = _
  rw [get?]
  generalize s.top :: s.below = fs
  induction fs with
  | nil => rfl
  | cons f rest ih =>
    rw [List.flatMap_cons, List.findSome?_append, findSome?_spread, ih, lookup]
    cases findEntry name f.bindings <;> rfl

/-! ## Every operation on both -/

theorem eager_ofBindings (base : List Binding) :
    (ofBindings base).eager = EagerScope.ofBindings base := rfl

theorem eager_push (s : Scope) : s.push.eager = s.eager.push := by
  apply EagerScope.ext
  simp [eager, push, EagerScope.push, Frame.spread, List.replicate_succ]

theorem eager_add (s : Scope) (name : String) (value : Value) :
    (s.add name value).eager = s.eager.add name value := by
  obtain ⟨⟨bindings, pending⟩, below⟩ := s
  apply EagerScope.ext
  cases pending with
  | zero => simp [eager, add, EagerScope.add, Frame.spread]
  | succ n => simp [eager, add, EagerScope.add, Frame.spread, List.replicate_succ, putEntry]

theorem eager_pop (s : Scope) : s.pop.eager = s.eager.pop := by
  obtain ⟨⟨bindings, pending⟩, below⟩ := s
  apply EagerScope.ext
  cases pending with
  | succ n => simp [eager, pop, EagerScope.pop, Frame.spread, List.replicate_succ]
  | zero =>
    cases below with
    | nil => simp [eager, pop, EagerScope.pop, Frame.spread]
    | cons f rest => simp [eager, pop, EagerScope.pop, Frame.spread]

theorem eager_unwind (s : Scope) (d : Nat) : (s.unwind d).eager = s.eager.unwind d := by
  generalize hk : s.depth - d = k
  induction k generalizing s with
  | zero =>
    rw [unwind_eq_self s d (by omega)]
    apply EagerScope.ext
    rw [EagerScope.frames_unwind, depth_eager, hk, List.drop_zero]
  | succ k ih =>
    have hp := depth_pop s (by omega)
    rw [← unwind_pop s d (by omega), ih s.pop (by omega), eager_pop]
    have htail : s.eager.frames.tail ≠ [] := by
      intro h
      have hlen := congrArg List.length h
      have hd := depth_eager s
      rw [EagerScope.depth] at hd
      rw [List.length_tail, List.length_nil] at hlen
      omega
    have hpop : s.eager.pop.frames = s.eager.frames.tail := by
      rw [EagerScope.pop, dif_neg htail]
    have hdrop : s.eager.pop.depth - d = k := by
      rw [← eager_pop, depth_eager]
      omega
    apply EagerScope.ext
    rw [EagerScope.frames_unwind, EagerScope.frames_unwind, hdrop, hpop, depth_eager, hk,
      ← List.drop_one, List.drop_drop, Nat.add_comm 1 k]

theorem eager_frame {β γ : Type} (body : Scope → β × Scope)
    (body' : EagerScope → γ × EagerScope) (g : β → γ) (s : Scope)
    (h : body' s.push.eager = (g (body s.push).1, (body s.push).2.eager)) :
    s.eager.frame body' = (g (s.frame body).1, (s.frame body).2.eager) := by
  rw [EagerScope.frame, ← eager_push, h, depth_eager, frame, eager_unwind]

end Scope

/-! ## Scripts of scope operations -/

/-- Scopes of either kind. -/
class BindingStack (σ : Type) extends FrameStack σ where
  add : σ → String → Value → σ
  unwind : σ → Nat → σ
  frame : {β : Type} → (σ → β × σ) → σ → β × σ

instance : BindingStack Scope where
  push := Scope.push
  pop := Scope.pop
  add := Scope.add
  unwind := Scope.unwind
  frame := Scope.frame

instance : BindingStack EagerScope where
  push := EagerScope.push
  pop := EagerScope.pop
  add := EagerScope.add
  unwind := EagerScope.unwind
  frame := EagerScope.frame

inductive ScopeStep
  | push
  | pop
  | add (name : String) (value : Value)
  | get (name : String)
  | unwind (depth : Nat)

/-- Looking a name up changes nothing. -/
def ScopeStep.apply {σ : Type} [BindingStack σ] : ScopeStep → σ → σ
  | push, s => FrameStack.push s
  | pop, s => FrameStack.pop s
  | add name value, s => BindingStack.add s name value
  | get _, s => s
  | unwind d, s => BindingStack.unwind s d

/-- A sequence of steps and of blocks with a frame of their own, to any depth. -/
inductive Script
  | done
  /-- An exception, which ends the script and every block that it is in up to a `recover`. -/
  | raise
  | step (first : ScopeStep) (next : Script)
  /-- A block that has its own frame, also when it ends by an exception. -/
  | frame (body next : Script)
  /-- A block whose exceptions end only the block. -/
  | recover (body next : Script)

/-- The states after every step of a script, and whether an exception ended it. -/
structure Visits (σ : Type) where
  states : List σ
  raised : Bool

/-- The same visits, after other states. -/
def Visits.after {σ : Type} (v : Visits σ) (states : List σ) : Visits σ :=
  ⟨states ++ v.states, v.raised⟩

/-- Run a script.  Entering a block and leaving it are steps too. -/
def Script.run {σ : Type} [BindingStack σ] : Script → σ → Visits σ × σ
  | done, s => (⟨[], false⟩, s)
  | raise, s => (⟨[], true⟩, s)
  | step first next, s =>
    let t := first.apply s
    let rest := next.run t
    (rest.1.after [t], rest.2)
  | frame body next, s =>
    let inside := BindingStack.frame (fun t => ((body.run t).1.after [t], (body.run t).2)) s
    if inside.1.raised then (⟨inside.1.states ++ [inside.2], true⟩, inside.2)
    else
      let rest := next.run inside.2
      (rest.1.after (inside.1.states ++ [inside.2]), rest.2)
  | recover body next, s =>
    let inside := body.run s
    let rest := next.run inside.2
    (rest.1.after inside.1.states, rest.2)

/-- The states of a run, spread out. -/
def Visits.eager (v : Visits Scope) : Visits EagerScope := ⟨v.states.map Scope.eager, v.raised⟩

theorem Visits.eager_after (v : Visits Scope) (states : List Scope) :
    (v.after states).eager = v.eager.after (states.map Scope.eager) := by
  simp [eager, after]

theorem ScopeStep.apply_eager (step : ScopeStep) (s : Scope) :
    step.apply s.eager = (step.apply s).eager := by
  cases step with
  | push => exact (Scope.eager_push s).symm
  | pop => exact (Scope.eager_pop s).symm
  | add name value => exact (Scope.eager_add s name value).symm
  | get name => rfl
  | unwind d => exact (Scope.eager_unwind s d).symm

/-- Every run on the eager stack is the run on the scope, spread out state by state. -/
theorem Script.run_eager (script : Script) (s : Scope) :
    script.run s.eager = ((script.run s).1.eager, (script.run s).2.eager) := by
  induction script generalizing s with
  | done => rfl
  | raise => rfl
  | step first next ih =>
    simp only [run]
    rw [first.apply_eager, ih, Visits.eager_after]
    rfl
  | frame body next ihBody ihNext =>
    have hin := Scope.eager_frame
      (fun t => ((body.run t).1.after [t], (body.run t).2))
      (fun t => ((body.run t).1.after [t], (body.run t).2)) Visits.eager s
      (by simp [ihBody, Visits.eager_after])
    simp only [run, BindingStack.frame]
    rw [hin]
    generalize Scope.frame _ s = inside
    obtain ⟨⟨states, raised⟩, t⟩ := inside
    cases raised with
    | true => simp [Visits.eager]
    | false =>
      simp only [Visits.eager, Bool.false_eq_true, if_false]
      rw [ihNext]
      simp [Visits.eager, Visits.after]
  | recover body next ihBody ihNext =>
    simp only [run]
    rw [ihBody, ihNext, Visits.eager_after]
    rfl

/-! ## Refinement -/

/-- A scope that an eager scope stands for: same look-ups, same depth, and every entry of the
snapshot expands to its frame and the empty frames counted on it. -/
structure Scope.Refines (s : Scope) (e : EagerScope) : Prop where
  get?_eq : ∀ name, s.get? name = e.get? name
  depth_eq : s.depth = e.depth
  snapshot_eq : e.snapshot = s.snapshot.flatMap Frame.expand

theorem Scope.refines_eager (s : Scope) : s.Refines s.eager :=
  ⟨fun name => (s.get?_eager name).symm, s.depth_eager.symm, s.snapshot_eager⟩

/-- Dropping one frame at a time, as long as there are more than `d` above the base frame. -/
inductive UnwindLoop (d : Nat) : Scope → Scope → Prop
  | stop {s : Scope} (h : s.depth ≤ d) : UnwindLoop d s s
  | drop {s t : Scope} (h : d < s.depth) (rest : UnwindLoop d s.pop t) : UnwindLoop d s t

/-- The loop ends, in one state only. -/
theorem unwindLoop_iff (d : Nat) (s t : Scope) : UnwindLoop d s t ↔ t = s.unwind d := by
  constructor
  · intro h
    induction h with
    | stop h => exact (Scope.unwind_eq_self _ d h).symm
    | drop h _ ih => rw [ih, Scope.unwind_pop _ d h]
  · rintro rfl
    generalize hk : s.depth - d = k
    induction k generalizing s with
    | zero =>
      rw [Scope.unwind_eq_self s d (by omega)]
      exact .stop (by omega)
    | succ k ih =>
      have hp := Scope.depth_pop s (by omega)
      rw [← Scope.unwind_pop s d (by omega)]
      exact .drop (by omega) (ih s.pop (by omega))

/-- **Scopes are stacks of frames.**  On any base frame every script visits the same states on a
scope and on the eager stack, step by step, and ends the same way; unwinding ends. -/
theorem script_refines_eager :
    (∀ (base : List Binding) (script : Script),
      List.Forall₂ Scope.Refines (script.run (Scope.ofBindings base)).1.states
        (script.run (EagerScope.ofBindings base)).1.states ∧
      (script.run (Scope.ofBindings base)).1.raised =
        (script.run (EagerScope.ofBindings base)).1.raised) ∧
    ∀ (s : Scope) (d : Nat),
      (∀ t, UnwindLoop d s t ↔ t = s.unwind d) ∧ (s.unwind d).depth = min d s.depth := by
  constructor
  · intro base script
    rw [← Scope.eager_ofBindings, script.run_eager]
    refine ⟨?_, rfl⟩
    rw [Visits.eager, List.forall₂_map_right_iff, List.forall₂_same]
    intro s _
    exact s.refines_eager
  · intro s d
    exact ⟨unwindLoop_iff d s, s.depth_unwind d⟩

end HexRules
