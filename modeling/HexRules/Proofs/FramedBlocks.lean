import HexRules.Proofs.EagerScope

/-!
# Blocks with a frame of their own

A block that runs in a frame of its own leaves the scope as it found it, counts of pending frames
included, if it never drops the frame that it was given.  On the way out frames are dropped down to
a remembered depth, with no record of which ones the block made or how; a scope is found again by
its depth alone because no step inside reaches below that frame.  `s.Inside t` says so of a state
`t` of the block: `t` is `s` with one frame on top at least.

    s.Inside t, a step that keeps its depth above s → s.Inside (step.apply t)       (Inside.apply)
    s.Inside t, states of the run all deeper than s → s.Inside u for all of them    (Inside.run)
    … → (s.frame script.run).2.snapshot = s.snapshot                     (frame_leaves_no_trace)
-/

namespace HexRules

/-! ## Scopes inside a frame -/

namespace Scope

namespace Extends

variable {s t : Scope}

theorem pop (h : s.Extends t) (hd : s.depth < t.depth) : s.Extends t.pop := by
  have hpop := depth_pop t (by omega)
  refine ⟨by omega, ?_⟩
  rw [unwind_pop t s.depth hd, h.unwind_depth]

theorem unwind (h : s.Extends t) {d : Nat} (hd : s.depth ≤ d) : s.Extends (t.unwind d) := by
  have hle := h.depth_le
  refine ⟨by rw [depth_unwind]; omega, ?_⟩
  rw [unwind_unwind t d s.depth hd, h.unwind_depth]

end Extends

/-- `t` is `s` with a frame on top of it, and anything on top of that frame. -/
structure Inside (s t : Scope) : Prop where
  extends_scope : s.Extends t
  depth_lt : s.depth < t.depth

theorem inside_push (s : Scope) : s.Inside s.push :=
  ⟨(Extends.refl s).push, by rw [depth_push]; omega⟩

theorem Inside.snapshot_unwind {s t : Scope} (h : s.Inside t) :
    (t.unwind s.depth).snapshot = s.snapshot := by
  rw [h.extends_scope.unwind_depth]

end Scope

open Scope

/-! ## Steps -/

/-- A step that does not drop the frame leaves all that is below it in place. -/
theorem Scope.Inside.apply {s t : Scope} (h : s.Inside t) (step : ScopeStep)
    (hafter : s.depth < (step.apply t).depth) : s.Inside (step.apply t) := by
  refine ⟨?_, hafter⟩
  cases step with
  | push => exact h.extends_scope.push
  | pop => exact h.extends_scope.pop h.depth_lt
  | add name value => exact h.extends_scope.add h.depth_lt name value
  | get name => exact h.extends_scope
  | unwind d =>
    have hd : (t.unwind d).depth = min d t.depth := t.depth_unwind d
    have hlt : s.depth < (t.unwind d).depth := hafter
    exact h.extends_scope.unwind (by omega)

/-! ## Runs -/

/-- What a block visits: its new frame, what its body visits in it, and the scope that it leaves. -/
def Script.blockStates (body : Script) (s : Scope) : List Scope :=
  s.push :: (body.run s.push).1.states ++ [(body.run s.push).2.unwind s.depth]

theorem Script.run_frame (body next : Script) (s : Scope) :
    (frame body next).run s =
      let left := (body.run s.push).2.unwind s.depth
      if (body.run s.push).1.raised then (⟨body.blockStates s, true⟩, left)
      else ((next.run left).1.after (body.blockStates s), (next.run left).2) := rfl

/-- The scope that an inner block leaves is inside the frame too.  The inner block may well have
dropped its own frame; the one on `s` is below that. -/
theorem Scope.Inside.block {s t : Scope} {body : Script} (h : s.Inside t)
    (hstates : ∀ u ∈ (body.run t.push).1.states, s.Inside u) (hend : s.Inside (body.run t.push).2)
    (hdeep : ∀ u ∈ body.blockStates t, s.depth < u.depth) : ∀ u ∈ body.blockStates t, s.Inside u := by
  have hpush : s.Inside t.push := h.apply .push (hdeep t.push List.mem_cons_self)
  have hleft : s.Inside ((body.run t.push).2.unwind t.depth) := by
    refine ⟨hend.extends_scope.unwind (Nat.le_of_lt h.depth_lt), hdeep _ ?_⟩
    exact List.mem_append_right _ (List.mem_singleton_self _)
  intro u hu
  rcases List.mem_append.1 hu with hu | hu
  · rcases List.mem_cons.1 hu with rfl | hu
    · exact hpush
    · exact hstates u hu
  · exact List.mem_singleton.1 hu ▸ hleft

/-- All that a run of a script inside a frame visits, and the state that it ends in, by an exception
or not, are inside the frame, if none of them is as low as the scope below it. -/
theorem Scope.Inside.run {s t : Scope} (h : s.Inside t) (script : Script)
    (hdeep : ∀ u ∈ (script.run t).1.states, s.depth < u.depth) :
    (∀ u ∈ (script.run t).1.states, s.Inside u) ∧ s.Inside (script.run t).2 := by
  induction script generalizing t with
  | done => exact ⟨fun u hu => absurd hu List.not_mem_nil, h⟩
  | raise => exact ⟨fun u hu => absurd hu List.not_mem_nil, h⟩
  | step first next ih =>
    obtain ⟨hfirst, hrest⟩ := List.forall_mem_cons.1 hdeep
    have hinside := h.apply first hfirst
    obtain ⟨hstates, hend⟩ := ih hinside hrest
    exact ⟨List.forall_mem_cons.2 ⟨hinside, hstates⟩, hend⟩
  | frame body next ihBody ihNext =>
    have hblock : ∀ u ∈ body.blockStates t, s.depth < u.depth := by
      intro u hu
      apply hdeep
      rw [Script.run_frame]
      split
      · exact hu
      · exact List.mem_append_left _ hu
    have hpush : s.Inside t.push := h.apply .push (hblock t.push List.mem_cons_self)
    obtain ⟨hstates, hend⟩ := ihBody hpush fun u hu =>
      hblock u (List.mem_append_left _ (List.mem_cons_of_mem _ hu))
    have hvisited := h.block hstates hend hblock
    have hleft := hvisited _ (List.mem_append_right _ (List.mem_singleton_self _))
    rw [Script.run_frame] at hdeep ⊢
    cases hraised : (body.run t.push).1.raised with
    | true =>
      simp only [if_true]
      exact ⟨hvisited, hleft⟩
    | false =>
      simp only [hraised, Bool.false_eq_true, if_false] at hdeep ⊢
      obtain ⟨hmore, hlast⟩ := ihNext hleft (List.forall_mem_append.1 hdeep).2
      exact ⟨List.forall_mem_append.2 ⟨hvisited, hmore⟩, hlast⟩
  | recover body next ihBody ihNext =>
    obtain ⟨hbody, hrest⟩ := List.forall_mem_append.1 hdeep
    obtain ⟨hstates, hinside⟩ := ihBody h hbody
    obtain ⟨hmore, hend⟩ := ihNext hinside hrest
    exact ⟨List.forall_mem_append.2 ⟨hstates, hmore⟩, hend⟩

/-- **A block leaves no trace.**  Take any scope and any script that, run in a frame of its own, goes
nowhere as low as the scope below that frame, whether it comes to its end or an exception ends it.
Leaving the frame gives back the scope, with the same snapshot, and so it would at every point of the
run: an exception may come anywhere. -/
theorem frame_leaves_no_trace (body : Script) (s : Scope)
    (hdeep : ∀ t ∈ (body.run s.push).1.states, s.depth + 1 ≤ t.depth) :
    (s.frame body.run).2.snapshot = s.snapshot ∧
      ∀ t ∈ (body.run s.push).1.states, (t.unwind s.depth).snapshot = s.snapshot := by
  obtain ⟨hstates, hend⟩ := s.inside_push.run body hdeep
  exact ⟨hend.snapshot_unwind, fun t ht => (hstates t ht).snapshot_unwind⟩

namespace Relay

/-- Two frames above the base frame, the upper one only counted. -/
def countedScope : Scope := ((ofBindings [("a", .bool true)]).push.add "b" (.bool true)).push

/-- Binds in its own frame and in more frames; the inner block drops more than its own frame and is
ended by an exception. -/
def nestedBlocks : Script :=
  .step (.add "a" (.bool false)) (.step .push (.step (.add "b" (.bool false)) (.step .push
    (.frame (.step .pop (.step .pop (.step (.add "c" (.bool false)) .raise))) .done))))

theorem nested_blocks_leave_no_trace :
    (∀ t ∈ (nestedBlocks.run countedScope.push).1.states, countedScope.depth + 1 ≤ t.depth) ∧
      (nestedBlocks.run countedScope.push).1.raised = true ∧
      (countedScope.frame nestedBlocks.run).2.snapshot =
        [⟨[("a", .bool true)], 0⟩, ⟨[("b", .bool true)], 1⟩] := by
  have hdeep : ∀ t ∈ (nestedBlocks.run countedScope.push).1.states,
      countedScope.depth + 1 ≤ t.depth := by decide
  exact ⟨hdeep, rfl, (frame_leaves_no_trace nestedBlocks countedScope hdeep).1⟩

/-- A block that drops its own frame can bind in the frame below. -/
example : (countedScope.frame
    (Script.run (.step .pop (.step .pop (.step (.add "c" (.bool true)) .done))))).2.get? "c" =
      some (.bool true) := rfl

end Relay

end HexRules
