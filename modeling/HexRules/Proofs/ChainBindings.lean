import HexRules.Proofs.ChainMatch

/-!
# What guards and results see

A traced test answers what the test answers, and records which links have matched and every guard
and every result that it evaluates, with the scope it is evaluated in.

    (walkTraced ctx number links indexed s).1 = walk ctx links indexed s (walkTraced_fst)
    (c.matchAllTraced ctx candidates s).1 = c.matchAll ctx candidates s  (matchAllTraced_fst)

In such a scope a name stands for what the links matched so far have bound to it last, for the
candidates that their slots have taken in the end, and otherwise for what it stood for before the
test: whatever the search bound in attempts that it undid is gone.

    Tells candidates n links s (walkTraced ctx n links indexed s)        (tells_walkTraced)
    (c.matchAllTraced ctx candidates s.push).2.Sees c candidates s …     (sees_matchAllTraced)
-/

namespace HexRules

/-! ## Traced tests -/

/-- A guard or a result that a test evaluates, and the scope it is evaluated in. -/
inductive Evaluation
  | guard (link : Nat) (scope : Scope)
  | result (link slot : Nat) (scope : Scope)

/-- The links that have matched, the last of them perhaps not passed by its guard, and what has
been evaluated. -/
structure Trace where
  matched : List Matched
  evaluations : List Evaluation

/-- Map a traced computation over a list, up to the first error. -/
def mapTraced {α β ε τ : Type} (f : α → Except ε β × List τ) :
    List α → Except ε (List β) × List τ
  | [] => (.ok [], [])
  | x :: rest =>
    match f x with
    | (.error e, log) => (.error e, log)
    | (.ok y, log) =>
      let after := mapTraced f rest
      (after.1.map (y :: ·), log ++ after.2)

namespace Chain

/-- A link evaluates its guard, if it has one. -/
def guardLog (number : Nat) (l : Link) (s : Scope) : List Evaluation :=
  l.guard.toList.map fun _ => .guard number s

def guardTraced (ctx : Context) (number : Nat) (l : Link) (s : Scope) :
    Except EvalError Bool × List Evaluation :=
  (l.guardHolds ctx s, guardLog number l s)

/-- Match links, the first of them numbered `number`. -/
def walkTraced (ctx : Context) : Nat → List Link → List (Nat × Piece) → Scope →
    (Except EvalError (Outcome (List Matched)) × Scope) × Trace
  | _, [], indexed, s => ((.ok (if indexed.isEmpty then .success [] else .failure), s), ⟨[], []⟩)
  | number, l :: rest, indexed, s =>
    match l.matcher.test (indexed.map Prod.snd) s.push with
    | (.pending, s) => ((.ok .pending, s), ⟨[], []⟩)
    | (.failure, s) => ((.ok .failure, s), ⟨[], []⟩)
    | (.success chosen, s) =>
      let m : Matched := ⟨l, indicesAt indexed chosen⟩
      match guardTraced ctx number l s with
      | (.error e, log) => ((.error e, s), ⟨[m], log⟩)
      | (.ok false, log) => ((.ok .failure, s), ⟨[m], log⟩)
      | (.ok true, log) =>
        let after := walkTraced ctx (number + 1) rest (Link.leftover indexed chosen) s
        (withLink m after.1, ⟨m :: after.2.matched, log ++ after.2.evaluations⟩)

/-- The results of a link, slot by slot. -/
def linkTraced (ctx : Context) (s : Scope) (link : Matched × Nat) :
    Except EvalError (List Replacement) × List Evaluation :=
  mapTraced (fun slot =>
      (do
        let p ← slot.1.2.replacement ctx s
        .ok (slot.1.1, p), [.result link.2 slot.2 s]))
    (link.1.indices.zip link.1.link.results).zipIdx

/-- The results of all links, the last link first. -/
def replacementsTraced (ctx : Context) (s : Scope) (matched : List Matched) :
    Except EvalError (List Replacement) × List Evaluation :=
  let parts := mapTraced (linkTraced ctx s) matched.zipIdx.reverse
  (parts.1.map List.flatten, parts.2)

def matchAllTraced (c : Chain) (ctx : Context) (candidates : List Piece) (s : Scope) :
    (Except EvalError (Outcome (List Replacement)) × Scope) × Trace :=
  let walked := walkTraced ctx 0 c.links (candidates.zipIdx.map Prod.swap) s
  match walked.1 with
  | (.error e, s) => ((.error e, s), walked.2)
  | (.ok .pending, s) => ((.ok .pending, s), walked.2)
  | (.ok .failure, s) => ((.ok .failure, s), walked.2)
  | (.ok (.success matched), s) =>
    let results := replacementsTraced ctx s matched
    ((results.1.map .success, s), ⟨walked.2.matched, walked.2.evaluations ++ results.2⟩)

end Chain

/-! ## Tracing changes no answer -/

theorem mapTraced_fst {α β ε τ : Type} (f : α → Except ε β × List τ) (xs : List α) :
    (mapTraced f xs).1 = xs.mapM fun x => (f x).1 := by
  induction xs with
  | nil => rfl
  | cons x rest ih =>
    rw [mapTraced, List.mapM_cons, ← ih]
    cases hx : f x with
    | mk answer log =>
      cases answer with
      | error e => rfl
      | ok y =>
        show Except.map (y :: ·) (mapTraced f rest).1 = _
        cases (mapTraced f rest).1 <;> rfl

theorem mem_mapTraced {α β ε τ : Type} (f : α → Except ε β × List τ) (xs : List α) (e : τ)
    (h : e ∈ (mapTraced f xs).2) : ∃ x ∈ xs, e ∈ (f x).2 := by
  induction xs with
  | nil => cases h
  | cons x rest ih =>
    rw [mapTraced] at h
    cases hx : f x with
    | mk answer log =>
      rw [hx] at h
      have hlog : e ∈ log → ∃ x' ∈ x :: rest, e ∈ (f x').2 := by
        intro hm
        exact ⟨x, List.mem_cons_self, by rw [hx]; exact hm⟩
      cases answer with
      | error err => exact hlog h
      | ok y =>
        rcases List.mem_append.1 h with hm | hm
        · exact hlog hm
        · obtain ⟨x', hx', he⟩ := ih hm
          exact ⟨x', List.mem_cons_of_mem _ hx', he⟩

/-- A traced map without an error holds what all its elements log. -/
theorem mapTraced_of_ok {α β ε τ : Type} (f : α → Except ε β × List τ) (xs : List α) (ys : List β)
    (h : (mapTraced f xs).1 = .ok ys) :
    ∀ x ∈ xs, (∃ y, (f x).1 = .ok y) ∧ ∀ e ∈ (f x).2, e ∈ (mapTraced f xs).2 := by
  induction xs generalizing ys with
  | nil => simp
  | cons x rest ih =>
    rw [mapTraced] at h ⊢
    cases hx : f x with
    | mk answer log =>
      rw [hx] at h
      cases answer with
      | error err => cases h
      | ok y =>
        obtain ⟨tail, hrest, -⟩ := exists_of_map_ok h
        intro x' hx'
        rcases List.mem_cons.1 hx' with rfl | hx'
        · rw [hx]
          exact ⟨⟨y, rfl⟩, fun e he => List.mem_append_left _ he⟩
        · obtain ⟨hy, hlog⟩ := ih tail hrest x' hx'
          exact ⟨hy, fun e he => List.mem_append_right _ (hlog e he)⟩

namespace Chain

theorem walkTraced_fst (ctx : Context) (number : Nat) (links : List Link)
    (indexed : List (Nat × Piece)) (s : Scope) :
    (walkTraced ctx number links indexed s).1 = walk ctx links indexed s := by
  induction links generalizing number indexed s with
  | nil => rfl
  | cons l rest ih =>
    rw [walkTraced, walk]
    cases hm : l.matcher.test (indexed.map Prod.snd) s.push with
    | mk answer t =>
      cases answer with
      | pending => rfl
      | failure => rfl
      | success chosen =>
        simp only [guardTraced]
        cases hg : l.guardHolds ctx t with
        | error e => rfl
        | ok holds =>
          cases holds with
          | false => rfl
          | true =>
            simp only
            rw [ih]
            rfl

theorem linkTraced_fst (ctx : Context) (s : Scope) (link : Matched × Nat) :
    (linkTraced ctx s link).1 = linkReplacements ctx s link.1 := by
  rw [linkTraced, mapTraced_fst, linkReplacements]
  conv => rhs; rw [← List.zipIdx_map_fst 0 (link.1.indices.zip link.1.link.results)]
  rw [List.mapM_map]
  rfl

theorem replacementsTraced_fst (ctx : Context) (s : Scope) (matched : List Matched) :
    (replacementsTraced ctx s matched).1 = replacements ctx s matched := by
  have hparts : (mapTraced (linkTraced ctx s) matched.zipIdx.reverse).1 =
      matched.reverse.mapM (linkReplacements ctx s) := by
    rw [mapTraced_fst]
    conv => rhs; rw [← List.zipIdx_map_fst 0 matched, ← List.map_reverse, List.mapM_map]
    congr 1
    funext link
    exact linkTraced_fst ctx s link
  show Except.map List.flatten (mapTraced (linkTraced ctx s) matched.zipIdx.reverse).1 = _
  rw [hparts, replacements]
  cases matched.reverse.mapM (linkReplacements ctx s) <;> rfl

theorem matchAllTraced_fst (c : Chain) (ctx : Context) (candidates : List Piece) (s : Scope) :
    (c.matchAllTraced ctx candidates s).1 = c.matchAll ctx candidates s := by
  unfold matchAllTraced matchAll
  simp only [walkTraced_fst]
  cases hw : walk ctx c.links (candidates.zipIdx.map Prod.swap) s with
  | mk answer u =>
    cases answer with
    | error e => rfl
    | ok outcome =>
      cases outcome with
      | pending => rfl
      | failure => rfl
      | success matched =>
        simp only [replacementsTraced_fst]
        cases replacements ctx u matched <;> rfl

/-! ## What is seen -/

/-- What links bind for the candidates that their slots have taken, in the order of the slots. -/
def boundBy (candidates : List Piece) (matched : List Matched) : List Binding :=
  matched.flatMap fun m => m.link.matcher.binds (Matcher.piecesAt candidates m.indices)

/-- Every name stands in `u` for what it stands for in `s` with all that `matched` bind laid over
it, the last link on top. -/
def Overlaid (candidates : List Piece) (matched : List Matched) (s u : Scope) : Prop :=
  ∀ name, u.get? name = (s.overlay (boundBy candidates matched)).get? name

theorem Overlaid.nil (candidates : List Piece) (s : Scope) : Overlaid candidates [] s s := by
  intro name
  rfl

theorem Overlaid.cons {candidates : List Piece} {m : Matched} {matched : List Matched}
    {s t u : Scope} (hm : Overlaid candidates [m] s t) (h : Overlaid candidates matched t u) :
    Overlaid candidates (m :: matched) s u := by
  intro name
  have hsplit : boundBy candidates (m :: matched) =
      boundBy candidates [m] ++ boundBy candidates matched := by
    rw [boundBy, boundBy, boundBy, ← List.flatMap_append]
    rfl
  rw [h name, Scope.get?_overlay, hm name, Scope.get?_overlay, Scope.get?_overlay, hsplit,
    List.reverse_append, findEntry_append, Option.or_assoc]

/-- A frame in which nothing is bound is not seen. -/
theorem Overlaid.of_push {candidates : List Piece} {matched : List Matched} {s u : Scope}
    (h : Overlaid candidates matched s.push u) : Overlaid candidates matched s u := by
  intro name
  rw [h name, Scope.get?_overlay, Scope.get?_overlay, Scope.get?_push]

/-- A guard holds as if all bindings were made in one frame. -/
theorem Overlaid.guardHolds {candidates : List Piece} {matched : List Matched} {s u : Scope}
    (h : Overlaid candidates matched s u) (ctx : Context) (l : Link) :
    l.guardHolds ctx u = l.guardHolds ctx (s.overlay (boundBy candidates matched)) := by
  unfold Link.guardHolds
  cases l.guard with
  | none => rfl
  | some e => exact Expression.test_congr (Context.Alike.refl ctx) e fun name _ => h name

theorem Overlaid.replacement {candidates : List Piece} {matched : List Matched} {s u : Scope}
    (h : Overlaid candidates matched s u) (ctx : Context) (e : Expression) :
    e.replacement ctx u = e.replacement ctx (s.overlay (boundBy candidates matched)) :=
  Expression.replacement_congr (Context.Alike.refl ctx) e fun name _ => h name

/-- Entries that hold candidates under their own indices. -/
def Indexes (candidates : List Piece) (indexed : List (Nat × Piece)) : Prop :=
  ∀ entry ∈ indexed, candidates[entry.1]? = some entry.2

theorem Indexes.piecesAt {candidates : List Piece} {indexed : List (Nat × Piece)}
    (h : Indexes candidates indexed) (chosen : List Nat) :
    Matcher.piecesAt (indexed.map Prod.snd) chosen =
      Matcher.piecesAt candidates (indicesAt indexed chosen) := by
  rw [piecesAt_eq, indicesAt_eq, Matcher.piecesAt]
  have hentries : ∀ entry ∈ entriesAt indexed chosen, candidates[entry.1]? = some entry.2 :=
    fun entry he => h entry (mem_of_mem_entriesAt he)
  generalize entriesAt indexed chosen = entries at hentries ⊢
  induction entries with
  | nil => rfl
  | cons entry rest ih =>
    rw [List.map_cons, List.map_cons, List.filterMap_cons, hentries entry List.mem_cons_self,
      ih fun e he => hentries e (List.mem_cons_of_mem _ he)]

theorem Indexes.leftover {candidates : List Piece} {indexed : List (Nat × Piece)}
    (h : Indexes candidates indexed) (chosen : List Nat) :
    Indexes candidates (Link.leftover indexed chosen) :=
  fun entry he => h entry (mem_of_mem_leftover he)

theorem Indexes.linkScope {candidates : List Piece} {indexed : List (Nat × Piece)}
    (h : Indexes candidates indexed) (l : Link) (chosen : List Nat) (s : Scope) :
    Overlaid candidates [⟨l, indicesAt indexed chosen⟩] s (linkScope l indexed chosen s) := by
  intro name
  rw [Chain.linkScope, Matcher.get?_bound, h.piecesAt, Scope.get?_overlay, boundBy,
    List.flatMap_singleton]
  rfl

/-- Every slot of a link accepts the candidate that it has taken. -/
def Accepted (candidates : List Piece) (m : Matched) : Prop :=
  List.Forall₂ (fun q index => ∃ p, candidates[index]? = some p ∧ q.accepts p = true)
    m.link.matcher.slots m.indices

theorem Indexes.accepted {candidates : List Piece} {indexed : List (Nat × Piece)}
    (h : Indexes candidates indexed) {l : Link} {chosen : List Nat}
    (fits : l.matcher.Fits (indexed.map Prod.snd) chosen) :
    Accepted candidates ⟨l, indicesAt indexed chosen⟩ := by
  have haccepts := fits.accepts
  rw [piecesAt_eq, List.forall₂_map_right_iff] at haccepts
  rw [Accepted, indicesAt_eq, List.forall₂_map_right_iff]
  have hmem : ∀ entry ∈ entriesAt indexed chosen, candidates[entry.1]? = some entry.2 :=
    fun entry he => h entry (mem_of_mem_entriesAt he)
  show List.Forall₂ _ l.matcher.slots _
  generalize entriesAt indexed chosen = entries at haccepts hmem ⊢
  generalize l.matcher.slots = slots at haccepts ⊢
  induction haccepts with
  | nil => exact .nil
  | @cons q entry _ _ ha _ ih =>
    exact .cons ⟨entry.2, hmem entry List.mem_cons_self, ha⟩
      (ih fun e he => hmem e (List.mem_cons_of_mem _ he))

/-! ## Traces of links -/

/-- What a traced match of `links`, the first of them numbered `number`, shows of the scope `s` in
which it starts. -/
structure Tells (candidates : List Piece) (number : Nat) (links : List Link) (s : Scope)
    (run : (Except EvalError (Outcome (List Matched)) × Scope) × Trace) : Prop where
  links_prefix : run.2.matched.map Matched.link <+: links
  accepted : ∀ m ∈ run.2.matched, Accepted candidates m
  guards : ∀ e ∈ run.2.evaluations, ∃ j u, e = .guard (number + j) u ∧ j < run.2.matched.length ∧
    Overlaid candidates (run.2.matched.take (j + 1)) s u
  guarded : ∀ j m, run.2.matched[j]? = some m → m.link.guard.isSome →
    ∃ u, Evaluation.guard (number + j) u ∈ run.2.evaluations
  success : ∀ matched u, run.1 = (.ok (.success matched), u) →
    run.2.matched = matched ∧ Overlaid candidates matched s u

theorem eq_of_mem_guardLog {number : Nat} {l : Link} {s : Scope} {e : Evaluation}
    (h : e ∈ guardLog number l s) : e = .guard number s := by
  obtain ⟨_, -, rfl⟩ := List.mem_map.1 h
  rfl

theorem mem_guardLog {number : Nat} {l : Link} {s : Scope} (h : l.guard.isSome) :
    Evaluation.guard number s ∈ guardLog number l s := by
  obtain ⟨g, hg⟩ := Option.isSome_iff_exists.1 h
  exact List.mem_map.2 ⟨g, by rw [hg]; exact List.mem_singleton_self g, rfl⟩

namespace Tells

variable {candidates : List Piece} {number : Nat} {l : Link} {links rest : List Link}
  {s t : Scope} {m : Matched} {answer : Except EvalError (Outcome (List Matched))}

/-- Nothing is evaluated before the first link has matched. -/
theorem unmatched (h : ∀ matched, answer ≠ .ok (.success matched)) :
    Tells candidates number links s ((answer, t), ⟨[], []⟩) where
  links_prefix := List.nil_prefix
  accepted := by simp
  guards := by simp
  guarded := by simp
  success matched u hrun := absurd (congrArg Prod.fst hrun) (h matched)

/-- The guard of a link that matches sees what the link binds. -/
theorem stopped (hm : Overlaid candidates [m] s t) (ha : Accepted candidates m)
    (h : ∀ matched, answer ≠ .ok (.success matched)) :
    Tells candidates number (m.link :: rest) s ((answer, t), ⟨[m], guardLog number m.link t⟩) where
  links_prefix := ⟨rest, rfl⟩
  accepted m' hm' := by
    rw [List.mem_singleton.1 hm']
    exact ha
  guards e he := ⟨0, t, eq_of_mem_guardLog he, Nat.zero_lt_one, hm⟩
  guarded j m' hj hg := by
    obtain ⟨hlt, rfl⟩ := List.getElem?_eq_some_iff.1 hj
    obtain rfl : j = 0 := Nat.lt_one_iff.1 hlt
    exact ⟨t, mem_guardLog hg⟩
  success matched u hrun := absurd (congrArg Prod.fst hrun) (h matched)

/-- Links after one that has passed see what it binds beneath what they bind. -/
theorem onward {after : (Except EvalError (Outcome (List Matched)) × Scope) × Trace}
    (hm : Overlaid candidates [m] s t) (ha : Accepted candidates m)
    (h : Tells candidates (number + 1) rest t after) :
    Tells candidates number (m.link :: rest) s (withLink m after.1,
      ⟨m :: after.2.matched, guardLog number m.link t ++ after.2.evaluations⟩) where
  links_prefix := by
    rw [List.map_cons]
    exact (List.prefix_cons_inj m.link).2 h.links_prefix
  accepted m' hm' := by
    rcases List.mem_cons.1 hm' with rfl | hm'
    · exact ha
    · exact h.accepted m' hm'
  guards e he := by
    rcases List.mem_append.1 he with he | he
    · exact ⟨0, t, eq_of_mem_guardLog he, Nat.succ_pos _, hm⟩
    · obtain ⟨j, u, heq, hlt, hu⟩ := h.guards e he
      exact ⟨j + 1, u, by rw [heq, Nat.add_right_comm, Nat.add_assoc], Nat.succ_lt_succ hlt,
        hm.cons hu⟩
  guarded j m' hj hg := by
    cases j with
    | zero =>
      obtain rfl : m = m' := Option.some.inj hj
      exact ⟨t, List.mem_append_left _ (mem_guardLog hg)⟩
    | succ j =>
      obtain ⟨u, hu⟩ := h.guarded j m' hj hg
      rw [Nat.add_right_comm] at hu
      exact ⟨u, List.mem_append_right _ hu⟩
  success matched u hrun := by
    obtain ⟨after', hafter, rfl⟩ := exists_of_withLink hrun
    obtain ⟨heq, hu⟩ := h.success after' u hafter
    exact ⟨congrArg (List.cons m) heq, hm.cons hu⟩

end Tells

theorem tells_walkTraced (ctx : Context) (number : Nat) (links : List Link)
    (candidates : List Piece) (indexed : List (Nat × Piece)) (s : Scope)
    (h : Indexes candidates indexed) :
    Tells candidates number links s (walkTraced ctx number links indexed s) := by
  induction links generalizing number indexed s with
  | nil =>
    rw [walkTraced]
    refine ⟨List.nil_prefix, by simp, by simp, by simp, fun matched u hrun => ?_⟩
    cases indexed with
    | nil =>
      cases hrun
      exact ⟨rfl, .nil candidates s⟩
    | cons entry rest => cases hrun
  | cons l rest ih =>
    rw [walkTraced]
    rcases Matcher.test_cases l.matcher (indexed.map Prod.snd) s.push with
      ⟨chosen, hm, hfits⟩ | hm | hm
    · rw [hm]
      have hlink := h.linkScope l chosen s
      have haccepted := h.accepted hfits
      simp only [guardTraced]
      cases l.guardHolds ctx
          (l.matcher.bound (Matcher.piecesAt (indexed.map Prod.snd) chosen) s.push) with
      | error e => exact .stopped hlink haccepted (by simp)
      | ok holds =>
        cases holds with
        | false => exact .stopped hlink haccepted (by simp)
        | true => exact .onward hlink haccepted (ih (number + 1) _ _ (h.leftover chosen))
    · rw [hm]
      exact .unmatched (by simp)
    · rw [hm]
      exact .unmatched (by simp)

/-! ## Traces of results -/

theorem mem_linkTraced {ctx : Context} {u : Scope} {link : Matched × Nat} {e : Evaluation}
    (h : e ∈ (linkTraced ctx u link).2) : ∃ i, e = .result link.2 i u := by
  obtain ⟨slot, -, hslot⟩ := mem_mapTraced _ _ e h
  exact ⟨slot.2, List.mem_singleton.1 hslot⟩

theorem mem_replacementsTraced {ctx : Context} {u : Scope} {matched : List Matched}
    {e : Evaluation} (h : e ∈ (replacementsTraced ctx u matched).2) :
    ∃ k i, e = .result k i u := by
  obtain ⟨link, -, hlink⟩ := mem_mapTraced (linkTraced ctx u) matched.zipIdx.reverse e h
  obtain ⟨i, rfl⟩ := mem_linkTraced hlink
  exact ⟨link.2, i, rfl⟩

/-- When all results have values, all of them have been evaluated. -/
theorem mem_replacementsTraced_of_ok {ctx : Context} {u : Scope} {matched : List Matched}
    {rs : List Replacement} (h : (replacementsTraced ctx u matched).1 = .ok rs) {k i : Nat}
    {m : Matched} (hm : matched[k]? = some m) (hi : i < m.indices.length)
    (hlen : m.indices.length = m.link.results.length) :
    Evaluation.result k i u ∈ (replacementsTraced ctx u matched).2 := by
  obtain ⟨parts, hparts, -⟩ := exists_of_map_ok h
  have hk : (m, k) ∈ matched.zipIdx.reverse :=
    List.mem_reverse.2 (List.mem_zipIdx_iff_getElem?.2 hm)
  obtain ⟨⟨part, hpart⟩, hlog⟩ := mapTraced_of_ok _ _ _ hparts _ hk
  apply hlog
  have hz : i < (m.indices.zip m.link.results).length := by
    rw [List.length_zip]
    omega
  have hslot : ((m.indices.zip m.link.results)[i], i) ∈
      (m.indices.zip m.link.results).zipIdx :=
    List.mem_zipIdx_iff_getElem?.2 (List.getElem?_eq_getElem hz)
  exact (mapTraced_of_ok _ _ _ hpart _ hslot).2 _ (List.mem_singleton_self _)

end Chain

/-- What a traced test of a chain that answers `answer` shows of the scope before the test. -/
structure Trace.Sees (T : Trace) (c : Chain) (candidates : List Piece) (s : Scope)
    (answer : Except EvalError (Outcome (List Replacement))) : Prop where
  links_prefix : T.matched.map Matched.link <+: c.links
  accepted : ∀ m ∈ T.matched, Chain.Accepted candidates m
  guards : ∀ k u, Evaluation.guard k u ∈ T.evaluations →
    k < T.matched.length ∧ Chain.Overlaid candidates (T.matched.take (k + 1)) s u
  guarded : ∀ k m, T.matched[k]? = some m → m.link.guard.isSome →
    ∃ u, Evaluation.guard k u ∈ T.evaluations
  results : ∀ k i u, Evaluation.result k i u ∈ T.evaluations →
    T.matched.map Matched.link = c.links ∧ Chain.Overlaid candidates T.matched s u
  resulted : ∀ rs, answer = .ok (.success rs) → ∀ k l i, c.links[k]? = some l →
    i < l.results.length → ∃ u, Evaluation.result k i u ∈ T.evaluations

namespace Chain

theorem indexes_zipIdx (candidates : List Piece) :
    Indexes candidates (candidates.zipIdx.map Prod.swap) := by
  intro entry he
  obtain ⟨c, hc, rfl⟩ := List.mem_map.1 he
  exact List.mem_zipIdx_iff_getElem?.1 hc

/-- The results come after the links, in the scope that the last link leaves. -/
theorem Tells.sees {candidates : List Piece} {c : Chain} {s t : Scope} {T : Trace}
    {walked : Except EvalError (Outcome (List Matched))}
    {answer : Except EvalError (Outcome (List Replacement))} {log : List Evaluation}
    (h : Tells candidates 0 c.links s.push ((walked, t), T))
    (hlog : ∀ e ∈ log, (∃ k i, e = .result k i t) ∧
      T.matched.map Matched.link = c.links ∧ Overlaid candidates T.matched s t)
    (hall : ∀ rs, answer = .ok (.success rs) → ∀ k l i, c.links[k]? = some l →
      i < l.results.length → ∃ u, Evaluation.result k i u ∈ log) :
    Trace.Sees ⟨T.matched, T.evaluations ++ log⟩ c candidates s answer where
  links_prefix := h.links_prefix
  accepted := h.accepted
  guards k u he := by
    rcases List.mem_append.1 he with he | he
    · obtain ⟨j, v, heq, hlt, hv⟩ := h.guards _ he
      rw [Nat.zero_add] at heq
      obtain ⟨rfl, rfl⟩ := Evaluation.guard.inj heq
      exact ⟨hlt, hv.of_push⟩
    · obtain ⟨⟨_, _, heq⟩, -⟩ := hlog _ he
      cases heq
  guarded k m hk hg := by
    obtain ⟨u, hu⟩ := h.guarded k m hk hg
    rw [Nat.zero_add] at hu
    exact ⟨u, List.mem_append_left _ hu⟩
  results k i u he := by
    rcases List.mem_append.1 he with he | he
    · obtain ⟨_, _, heq, -⟩ := h.guards _ he
      cases heq
    · obtain ⟨⟨_, _, heq⟩, hlinks, hover⟩ := hlog _ he
      cases heq
      exact ⟨hlinks, hover⟩
  resulted rs hrs k l i hl hi := by
    obtain ⟨u, hu⟩ := hall rs hrs k l i hl hi
    exact ⟨u, List.mem_append_right _ hu⟩

/-- A test that does not come to its results. -/
theorem Tells.sees_nil {candidates : List Piece} {c : Chain} {s t : Scope} {T : Trace}
    {walked : Except EvalError (Outcome (List Matched))}
    {answer : Except EvalError (Outcome (List Replacement))}
    (h : Tells candidates 0 c.links s.push ((walked, t), T))
    (hanswer : ∀ rs, answer ≠ .ok (.success rs)) : T.Sees c candidates s answer := by
  have hsees : Trace.Sees ⟨T.matched, T.evaluations ++ []⟩ c candidates s answer :=
    h.sees (by simp) fun rs hrs => absurd hrs (hanswer rs)
  rw [List.append_nil] at hsees
  exact hsees

theorem sees_matchAllTraced (c : Chain) (ctx : Context) (candidates : List Piece) (s : Scope) :
    (c.matchAllTraced ctx candidates s.push).2.Sees c candidates s
      (c.matchAllTraced ctx candidates s.push).1.1 := by
  have htells := tells_walkTraced ctx 0 c.links candidates (candidates.zipIdx.map Prod.swap) s.push
    (indexes_zipIdx candidates)
  have hwalk := walkTraced_fst ctx 0 c.links (candidates.zipIdx.map Prod.swap) s.push
  unfold matchAllTraced
  cases hrun : walkTraced ctx 0 c.links (candidates.zipIdx.map Prod.swap) s.push with
  | mk run T =>
    rw [hrun] at htells hwalk
    obtain ⟨walked, t⟩ := run
    cases walked with
    | error e => exact htells.sees_nil (by simp)
    | ok outcome =>
      cases outcome with
      | pending => exact htells.sees_nil (by simp)
      | failure => exact htells.sees_nil (by simp)
      | success matched =>
        obtain ⟨hmatched, hover⟩ := htells.success matched t rfl
        have hmatched : T.matched = matched := hmatched
        subst hmatched
        have hpasses := passes_of_walk hwalk.symm
        have hlinks := hpasses.map_link
        refine htells.sees (fun e he => ⟨mem_replacementsTraced he, hlinks, hover.of_push⟩) ?_
        intro rs hrs k l i hl hi
        obtain ⟨rs', hrs', -⟩ := exists_of_map_ok hrs
        rw [← hlinks, List.getElem?_map, Option.map_eq_some_iff] at hl
        obtain ⟨m, hm, rfl⟩ := hl
        have hlen := length_indices_of_passes hpasses m (List.mem_of_getElem? hm)
        exact ⟨t, mem_replacementsTraced_of_ok hrs' hm (by omega) hlen⟩

end Chain

/-- **What is seen.**  A test with its trace answers what the test answers.  The guard of the link
with number `k` is evaluated after the links up to `k` have matched, and results are evaluated after
all have.  Every name stands then for what it stood for before the test, with what the slots of
those links bind for the candidates that they have taken laid over it, slot by slot and link by
link: nothing that an undone attempt has bound is seen. -/
theorem evaluations_see_bindings (c : Chain) (ctx : Context) (candidates : List Piece)
    (s t : Scope) (answer : Except EvalError (Outcome (List Replacement))) (T : Trace)
    (h : c.matchAllTraced ctx candidates s.push = ((answer, t), T)) :
    c.test ctx candidates s = (answer, s) ∧ T.Sees c candidates s answer := by
  have hsees := c.sees_matchAllTraced ctx candidates s
  have hanswer : (c.test ctx candidates s).1 = (c.matchAll ctx candidates s.push).1 := rfl
  rw [← c.matchAllTraced_fst] at hanswer
  rw [h] at hsees hanswer
  exact ⟨Prod.ext hanswer (c.test_snd ctx candidates s), hsees⟩

namespace Relay

theorem matched_chain :
    (chain.matchAllTraced context [red, blue, green] Scope.empty.push).2.matched =
      [⟨colours, [1, 0]⟩, ⟨last, [2]⟩] := by
  simp only [Chain.matchAllTraced, Chain.walkTraced, Chain.links, chain, colours, last,
    Matcher.test, Matcher.testSearch, Matcher.searchSlots, Assignment.assign_eq_place]
  rfl

/-- The red piece, which the search tries first, is not what the guard sees. -/
theorem guard_sees_blue :
    chain.test context [red, blue, green] Scope.empty =
        (.ok (.success [(2, some blue), (1, some red), (0, none)]), Scope.empty) ∧
      ∃ u, Evaluation.guard 0 u ∈
          (chain.matchAllTraced context [red, blue, green] Scope.empty.push).2.evaluations ∧
        u.get? "first" = some (.piece (some blue)) := by
  have hmatched := matched_chain
  have hanswer := test_chain
  cases hrun : chain.matchAllTraced context [red, blue, green] Scope.empty.push with
  | mk run T =>
    obtain ⟨answer, t⟩ := run
    rw [hrun] at hmatched
    obtain ⟨htest, hsees⟩ := evaluations_see_bindings chain context _ Scope.empty t answer T hrun
    rw [htest] at hanswer
    refine ⟨by rw [htest, ← hanswer], ?_⟩
    obtain ⟨u, hu⟩ := hsees.guarded 0 ⟨colours, [1, 0]⟩ (by rw [hmatched]; rfl) rfl
    obtain ⟨-, hover⟩ := hsees.guards 0 u hu
    rw [hmatched] at hover
    refine ⟨u, hu, ?_⟩
    rw [hover "first"]
    rfl

end Relay

end HexRules
