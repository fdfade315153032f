import HexRules.Proofs.Yields

/-!
# Static scoping

Which names a slot binds can be read off its predicate: it binds them for every piece that it
accepts.  So which names are bound after some links have matched does not depend on the candidates,
nor on what the search has tried on the way to them.

    q.accepts p → (q.binds p).map Prod.fst = q.bindNames                 (map_fst_binds)
    m.Fits candidates chosen →
      (name is bound in the scope of the match ↔ name ∈ m.bindNames, or it was bound before)
                                                                         (isSome_get?_bound_iff)
    Passes ctx links indexed s matched u →
      (name is bound in u ↔ name ∈ boundNames links, or it is bound in s) (Passes.isSome_get?_iff)

A chain is `Scoped` when every guard reads names that its own link or an earlier one binds, and every
result names that some link binds, apart from names that are bound from the start; that can be
decided without a match.
-/

namespace HexRules

/-! ## Names that are bound -/

namespace Predicate

/-- The names that the predicate binds, whatever piece it accepts. -/
def bindNames : Predicate → List String
  | literal _ => []
  | member _ bind => bind.toList
  | key _ bindKey bindValue => bindKey.toList ++ bindValue.toList

theorem map_fst_pieceBinding (name : Option String) (p : Piece) :
    (pieceBinding name p).map Prod.fst = name.toList := by
  cases name <;> rfl

theorem map_fst_binds {q : Predicate} {p : Piece} (h : q.accepts p = true) :
    (q.binds p).map Prod.fst = q.bindNames := by
  cases q with
  | literal wanted => rfl
  | member members bind => exact map_fst_pieceBinding bind p
  | key table bindKey bindValue =>
    obtain ⟨value, hvalue⟩ := Option.isSome_iff_exists.1 h
    simp only [binds, hvalue, Option.toList_some, List.flatMap_singleton, List.map_append,
      map_fst_pieceBinding]
    rfl

/-- Slots that accept what they take bind all the names that they can bind. -/
theorem map_fst_flatten_binds {qs : List Predicate} {pieces : List Piece}
    (h : List.Forall₂ (fun q p => q.accepts p = true) qs pieces) :
    ((qs.zipWith binds pieces).flatten).map Prod.fst = qs.flatMap bindNames := by
  induction h with
  | nil => rfl
  | cons ha _ ih =>
    rw [List.zipWith_cons_cons, List.flatten_cons, List.map_append, map_fst_binds ha, ih,
      List.flatMap_cons]

end Predicate

/-- The names that the slots of a pattern bind. -/
def Matcher.bindNames (m : Matcher) : List String := m.slots.flatMap Predicate.bindNames

/-- What a match binds does not depend on which candidates it has taken. -/
theorem Matcher.Fits.isSome_get?_bound_iff {m : Matcher} {candidates : List Piece}
    {chosen : List Nat} (h : m.Fits candidates chosen) (s : Scope) (name : String) :
    ((m.bound (piecesAt candidates chosen) s).get? name).isSome = true ↔
      name ∈ m.bindNames ∨ (s.get? name).isSome = true := by
  have hnames := Predicate.map_fst_flatten_binds h.accepts
  rw [Matcher.get?_bound, Option.isSome_or, Bool.or_eq_true, isSome_findEntry_iff,
    List.map_reverse, List.mem_reverse, Matcher.binds, Matcher.slotBinds, hnames]
  rfl

namespace Link

/-- The names that the guard reads. -/
def guardNames (l : Link) : List String :=
  match l.guard with
  | some e => e.names
  | none => []

/-- The names that the results read. -/
def resultNames (l : Link) : List String := l.results.flatMap Expression.names

end Link

namespace Chain

/-- The names that links bind. -/
def boundNames (links : List Link) : List String := links.flatMap fun l => l.matcher.bindNames

theorem isSome_get?_linkScope_iff {l : Link} {indexed : List (Nat × Piece)} {chosen : List Nat}
    (h : l.matcher.Fits (indexed.map Prod.snd) chosen) (s : Scope) (name : String) :
    ((linkScope l indexed chosen s).get? name).isSome = true ↔
      name ∈ l.matcher.bindNames ∨ (s.get? name).isSome = true := by
  rw [linkScope, h.isSome_get?_bound_iff, Scope.get?_push]

/-- After all links have matched the names are bound that the links bind. -/
theorem Passes.isSome_get?_iff {ctx : Context} {links : List Link} {indexed : List (Nat × Piece)}
    {s u : Scope} {matched : List Matched} (h : Passes ctx links indexed s matched u)
    (name : String) :
    (u.get? name).isSome = true ↔ name ∈ boundNames links ∨ (s.get? name).isSome = true := by
  induction h with
  | done s => simp [boundNames]
  | link fits guard onward ih =>
    rw [ih, isSome_get?_linkScope_iff fits, boundNames, boundNames, List.flatMap_cons,
      List.mem_append, ← or_assoc, or_comm (a := name ∈ List.flatMap _ _)]

/-! ## Scoped chains -/

/-- Every name that a guard reads is bound by a slot of its own link or of one before it, if it is
not bound from the start. -/
def GuardsScoped (links : List Link) (s : Scope) : Prop :=
  ∀ k (hk : k < links.length), ∀ name ∈ links[k].guardNames,
    name ∈ boundNames (links.take (k + 1)) ∨ (s.get? name).isSome = true

/-- Every name that a result reads is bound by a slot of some link, if it is not bound from the
start. -/
def ResultsScoped (links : List Link) (s : Scope) : Prop :=
  ∀ l ∈ links, ∀ name ∈ l.resultNames, name ∈ boundNames links ∨ (s.get? name).isSome = true

structure Scoped (c : Chain) (s : Scope) : Prop where
  guards : GuardsScoped c.links s
  results : ResultsScoped c.links s

instance (links : List Link) (s : Scope) : Decidable (GuardsScoped links s) :=
  inferInstanceAs (Decidable (∀ k (hk : k < links.length), ∀ name ∈ links[k].guardNames,
    name ∈ boundNames (links.take (k + 1)) ∨ (s.get? name).isSome = true))

instance (links : List Link) (s : Scope) : Decidable (ResultsScoped links s) :=
  inferInstanceAs (Decidable (∀ l ∈ links, ∀ name ∈ l.resultNames,
    name ∈ boundNames links ∨ (s.get? name).isSome = true))

instance (c : Chain) (s : Scope) : Decidable (c.Scoped s) :=
  decidable_of_iff (GuardsScoped c.links s ∧ ResultsScoped c.links s)
    ⟨fun h => ⟨h.1, h.2⟩, fun h => ⟨h.guards, h.results⟩⟩

variable {ctx : Context} {l : Link} {rest links : List Link} {indexed : List (Nat × Piece)}
  {chosen : List Nat} {s : Scope}

/-- What the first link binds is bound from the start for the links after it. -/
theorem GuardsScoped.tail (h : GuardsScoped (l :: rest) s)
    (hfits : l.matcher.Fits (indexed.map Prod.snd) chosen) :
    GuardsScoped rest (linkScope l indexed chosen s) := by
  intro k hk name hname
  rw [isSome_get?_linkScope_iff hfits]
  have hscoped := h (k + 1) (Nat.succ_lt_succ hk) name hname
  rw [List.take_succ_cons, boundNames, List.flatMap_cons, List.mem_append, or_assoc] at hscoped
  exact or_left_comm.1 hscoped

theorem GuardsScoped.head (h : GuardsScoped (l :: rest) s)
    (hfits : l.matcher.Fits (indexed.map Prod.snd) chosen) {name : String}
    (hname : name ∈ l.guardNames) :
    ((linkScope l indexed chosen s).get? name).isSome = true := by
  rw [isSome_get?_linkScope_iff hfits]
  have hscoped := h 0 (Nat.succ_pos _) name hname
  rw [List.take_succ_cons, List.take_zero, boundNames, List.flatMap_singleton] at hscoped
  exact hscoped

end Chain

/-! ## Errors -/

/-- The error says of no name that it is not bound. -/
abbrev EvalError.BlamesNone : EvalError → Prop := EvalError.Blames fun _ => False

/-- Nothing is missing where all names are bound. -/
theorem Supplied.of_bound {s : Scope} {names : List String} (pieces : List Piece)
    (h : ∀ name ∈ names, (s.get? name).isSome = true) :
    Supplied s (fun _ => True) (fun _ => False) names pieces where
  bound _ _ _ _ _ _ := trivial
  unbound name hname hnone := by
    have hsome := h name hname
    rw [hnone] at hsome
    cases hsome
  written _ _ := trivial

theorem Link.guardHolds_ends {l : Link} {ctx : Context} {u : Scope}
    (h : ∀ name ∈ l.guardNames, (u.get? name).isSome = true) :
    Ends (fun _ => True) EvalError.BlamesNone (l.guardHolds ctx u) := by
  unfold guardHolds
  cases hg : l.guard with
  | none => trivial
  | some e =>
    rw [guardNames, hg] at h
    exact e.test_ends (Supplied.of_bound e.pieces h)

namespace Chain

variable {ctx : Context} {links : List Link} {s : Scope}

/-- The induction is on the links, and what it carries is that the guards to come are scoped in the
scope that the links before them leave. -/
theorem walk_ends (h : GuardsScoped links s) (indexed : List (Nat × Piece)) :
    Ends (fun _ => True) EvalError.BlamesNone (walk ctx links indexed s).1 := by
  induction links generalizing indexed s with
  | nil => trivial
  | cons l rest ih =>
    rcases walk_cons_cases ctx l rest indexed s with hw | hw | ⟨chosen, hfits, hw⟩
    · rw [hw]
      trivial
    · rw [hw]
      trivial
    · have hguard : Ends (fun _ => True) EvalError.BlamesNone
          (l.guardHolds ctx (linkScope l indexed chosen s)) :=
        Link.guardHolds_ends fun name hname => h.head hfits hname
      have hrest := ih (h.tail hfits) (Link.leftover indexed chosen)
      rw [hw]
      cases hg : l.guardHolds ctx (linkScope l indexed chosen s) with
      | error e => exact hguard.of_error hg
      | ok holds =>
        cases holds with
        | false => trivial
        | true =>
          simp only
          generalize walk ctx rest (Link.leftover indexed chosen) _ = r at hrest
          obtain ⟨answer, t⟩ := r
          cases answer with
          | error e => exact hrest
          | ok o => cases o <;> trivial

theorem results_end {indexed : List (Nat × Piece)} {u : Scope} {matched : List Matched}
    (h : ResultsScoped links s) (hpasses : Passes ctx links indexed s matched u) :
    ∀ l ∈ links, ∀ e ∈ l.results,
      Ends (fun _ => True) EvalError.BlamesNone (e.replacement ctx u) := by
  intro l hl e he
  have hbound : ∀ name ∈ e.names, (u.get? name).isSome = true := by
    intro name hname
    rw [hpasses.isSome_get?_iff]
    exact h l hl name (List.mem_flatMap.2 ⟨e, he, hname⟩)
  have hsupplied := Supplied.of_bound e.pieces hbound
  exact (e.replacement_ends hsupplied).imp (fun _ _ => trivial) fun _ h => h

end Chain

/-- **Static scoping is sound.**  Take a chain where every name in a guard is bound by a slot of its
own link or of an earlier one, and every name in a result by a slot of any link, unless it is bound
from the start.  Whatever the candidates, the board and the cell, no test of the chain finds a name
that is not bound. -/
theorem scoped_never_unbound (c : Chain) (s : Scope) (h : c.Scoped s) (ctx : Context)
    (candidates : List Piece) (name : String) :
    (c.test ctx candidates s).1 ≠ .error (.unbound name) := by
  have hguards : Chain.GuardsScoped c.links s.push := h.guards
  have hresults : Chain.ResultsScoped c.links s.push := h.results
  have htest : Ends _ EvalError.BlamesNone (c.test ctx candidates s).1 :=
    Chain.test_ends (Chain.walk_ends hguards _) fun _ _ hpasses =>
      Chain.results_end hresults hpasses
  exact fun herror => htest.of_error herror name rfl

namespace Relay

/-- Which piece is first is up to the search, but some piece is. -/
theorem chain_never_unbound :
    chain.Scoped Scope.empty ∧ ∀ name,
      (chain.test context [red, blue, green] Scope.empty).1 ≠ .error (.unbound name) := by
  have hscoped : chain.Scoped Scope.empty := by decide
  exact ⟨hscoped, scoped_never_unbound chain Scope.empty hscoped context [red, blue, green]⟩

end Relay

end HexRules
