import HexRules.Proofs.ChainMatch
import HexRules.Proofs.LiteralSearch

/-!
# Chains with literal patterns searched

A literal pattern can be replaced by a search for its pieces in any links of a chain.  The links
then match the same candidates and leave the same candidates over.  The search also leaves a frame
for every slot, in which nothing is bound, so guards and results see the same bindings.

    links are alike, `s` and `t` bind the same names →
      Related (walk ctx links indexed s) (walk ctx links' indexed t)     (related_walk)
    the links of `c` and `c'` are alike →
      c.test ctx candidates s = c'.test ctx candidates s                 (test_congr_of_alike)
-/

namespace HexRules

/-! ## Patterns as searches -/

/-- The search for the slots of a pattern; for a literal pattern, for its pieces. -/
def Matcher.searched (m : Matcher) : Matcher := .search m.slots

def Link.searched (l : Link) : Link where
  matcher := l.matcher.searched
  guard := l.guard
  results := l.results
  length_results := l.length_results.trans l.matcher.length_slots.symm

/-- The link, with its pattern searched if `pick` is true. -/
def Link.searchedIf (pick : Bool) (l : Link) : Link := if pick then l.searched else l

/-- The chain, with the patterns of the links that `pick` names by their numbers searched. -/
def Chain.searchedWhere (pick : Nat → Bool) (c : Chain) : Chain :=
  ⟨c.first.searchedIf (pick 0), c.next.mapIdx fun k l => l.searchedIf (pick (k + 1))⟩

/-- Links that differ at most in how they compare their slots with candidates. -/
structure Link.Alike (l l' : Link) : Prop where
  slots : l.matcher.slots = l'.matcher.slots
  guard : l.guard = l'.guard
  results : l.results = l'.results

theorem Link.alike_searchedIf (pick : Bool) (l : Link) : l.Alike (l.searchedIf pick) := by
  cases pick with
  | false => exact ⟨rfl, rfl, rfl⟩
  | true => exact ⟨rfl, rfl, rfl⟩

theorem Chain.alike_searchedWhere (pick : Nat → Bool) (c : Chain) :
    List.Forall₂ Link.Alike c.links (c.searchedWhere pick).links := by
  have hnext : List.Forall₂ Link.Alike c.next
      (c.next.mapIdx fun k l => l.searchedIf (pick (k + 1))) := by
    rw [List.forall₂_iff_get]
    refine ⟨List.length_mapIdx.symm, fun k hk hk' => ?_⟩
    rw [List.get_eq_getElem, List.get_eq_getElem, List.getElem_mapIdx]
    exact Link.alike_searchedIf _ _
  exact .cons (c.first.alike_searchedIf (pick 0)) hnext

/-! ## Scopes that bind the same names -/

/-- Every name stands for the same in both scopes. -/
def Scope.Agrees (s t : Scope) : Prop := ∀ name, s.get? name = t.get? name

theorem Scope.Agrees.refl (s : Scope) : s.Agrees s := fun _ => rfl

theorem Scope.Agrees.push {s t : Scope} (h : s.Agrees t) : s.push.Agrees t.push := h

/-- What a match binds depends on the slots only. -/
theorem Scope.Agrees.bound {s t : Scope} (h : s.Agrees t) {m m' : Matcher}
    (hslots : m.slots = m'.slots) (pieces : List Piece) :
    (m.bound pieces s).Agrees (m'.bound pieces t) := by
  intro name
  have hbinds : m.binds pieces = m'.binds pieces := by
    rw [Matcher.binds, Matcher.binds, Matcher.slotBinds, Matcher.slotBinds, hslots]
  rw [Matcher.get?_bound, Matcher.get?_bound, hbinds, h name]

theorem Scope.Agrees.guardHolds {s t : Scope} (h : s.Agrees t) {l l' : Link} (hl : l.Alike l')
    (ctx : Context) : l.guardHolds ctx s = l'.guardHolds ctx t := by
  unfold Link.guardHolds
  rw [hl.guard]
  cases l'.guard with
  | none => rfl
  | some e => exact Expression.test_congr (Context.Alike.refl ctx) e fun name _ => h name

/-! ## Links one after the other -/

theorem Matcher.test_eq_outcome (m : Matcher) (candidates : List Piece) (s : Scope) :
    m.test candidates s =
      match outcome m.slots candidates with
      | .success chosen => (.success chosen, m.bound (piecesAt candidates chosen) s)
      | .pending => (.pending, s)
      | .failure => (.failure, s) := by
  rw [← m.test_fst candidates s]
  rcases m.test_cases candidates s with ⟨chosen, h, -⟩ | h | h
  · rw [h]
  · rw [h]
  · rw [h]

/-- Matches of links that are alike, with the same candidates. -/
structure Matched.Alike (m m' : Matched) : Prop where
  indices : m.indices = m'.indices
  results : m.link.results = m'.link.results

namespace Chain

/-- Two matches that answer the same, up to links that are alike, in scopes that agree. -/
inductive Related : Except EvalError (Outcome (List Matched)) × Scope →
    Except EvalError (Outcome (List Matched)) × Scope → Prop
  | error (e : EvalError) {s t : Scope} (h : s.Agrees t) : Related (.error e, s) (.error e, t)
  | pending {s t : Scope} (h : s.Agrees t) : Related (.ok .pending, s) (.ok .pending, t)
  | failure {s t : Scope} (h : s.Agrees t) : Related (.ok .failure, s) (.ok .failure, t)
  | success {matched matched' : List Matched} {s t : Scope}
      (hm : List.Forall₂ Matched.Alike matched matched') (h : s.Agrees t) :
      Related (.ok (.success matched), s) (.ok (.success matched'), t)

theorem Related.withLink {m m' : Matched} (hm : m.Alike m')
    {r r' : Except EvalError (Outcome (List Matched)) × Scope} (h : Related r r') :
    Related (withLink m r) (withLink m' r') := by
  cases h with
  | error e h => exact .error e h
  | pending h => exact .pending h
  | failure h => exact .failure h
  | success hms h => exact .success (.cons hm hms) h

theorem related_walk (ctx : Context) {links links' : List Link}
    (hlinks : List.Forall₂ Link.Alike links links') (indexed : List (Nat × Piece)) {s t : Scope}
    (h : s.Agrees t) : Related (walk ctx links indexed s) (walk ctx links' indexed t) := by
  induction hlinks generalizing indexed s t with
  | nil =>
    rw [walk, walk]
    split
    · exact .success .nil h
    · exact .failure h
  | @cons l l' rest rest' hl _ ih =>
    rw [walk, walk, Matcher.test_eq_outcome, Matcher.test_eq_outcome, ← hl.slots]
    cases Matcher.outcome l.matcher.slots (indexed.map Prod.snd) with
    | pending => exact .pending h.push
    | failure => exact .failure h.push
    | success chosen =>
      have hbound := h.push.bound hl.slots (Matcher.piecesAt (indexed.map Prod.snd) chosen)
      simp only
      rw [hbound.guardHolds hl ctx]
      cases l'.guardHolds ctx
          (l'.matcher.bound (Matcher.piecesAt (indexed.map Prod.snd) chosen) t.push) with
      | error e => exact .error e hbound
      | ok holds =>
        cases holds with
        | false => exact .failure hbound
        | true =>
          have hm : Matched.Alike ⟨l, indicesAt indexed chosen⟩ ⟨l', indicesAt indexed chosen⟩ :=
            ⟨rfl, hl.results⟩
          exact Related.withLink hm (ih (Link.leftover indexed chosen) hbound)

/-! ## Results -/

theorem mapM_congr_forall₂ {α β ε : Type} {f g : α → Except ε β} {xs ys : List α}
    (h : List.Forall₂ (fun x y => f x = g y) xs ys) : xs.mapM f = ys.mapM g := by
  induction h with
  | nil => rfl
  | cons hx _ ih => rw [List.mapM_cons, List.mapM_cons, hx, ih]

theorem linkReplacements_congr (ctx : Context) {s t : Scope} (h : s.Agrees t) {m m' : Matched}
    (hm : m.Alike m') : linkReplacements ctx s m = linkReplacements ctx t m' := by
  unfold linkReplacements
  rw [hm.indices, hm.results]
  congr 1
  funext slot
  rw [Expression.replacement_congr (Context.Alike.refl ctx) slot.2 fun name _ => h name]

theorem replacements_congr (ctx : Context) {s t : Scope} (h : s.Agrees t)
    {matched matched' : List Matched} (hm : List.Forall₂ Matched.Alike matched matched') :
    replacements ctx s matched = replacements ctx t matched' := by
  have hparts : matched.reverse.mapM (linkReplacements ctx s) =
      matched'.reverse.mapM (linkReplacements ctx t) :=
    mapM_congr_forall₂ ((List.forall₂_reverse_iff.2 hm).imp fun m m' hmm =>
      linkReplacements_congr ctx h hmm)
  rw [replacements, replacements, hparts]

/-- Chains whose links are alike test alike: same outcome, same replacements, same error. -/
theorem test_congr_of_alike {c c' : Chain} (hlinks : List.Forall₂ Link.Alike c.links c'.links)
    (ctx : Context) (candidates : List Piece) (s : Scope) :
    c.test ctx candidates s = c'.test ctx candidates s := by
  have hwalk := related_walk ctx hlinks (candidates.zipIdx.map Prod.swap)
    (Scope.Agrees.refl s.push)
  have hmatch : (c.matchAll ctx candidates s.push).1 = (c'.matchAll ctx candidates s.push).1 := by
    unfold matchAll
    generalize walk ctx c.links (candidates.zipIdx.map Prod.swap) s.push = r at hwalk
    generalize walk ctx c'.links (candidates.zipIdx.map Prod.swap) s.push = r' at hwalk
    cases hwalk with
    | error e h => rfl
    | pending h => rfl
    | failure h => rfl
    | @success matched matched' u u' hm h =>
      simp only
      rw [replacements_congr ctx h hm]
      cases replacements ctx u' matched' <;> rfl
  exact Prod.ext hmatch ((c.test_snd ctx candidates s).trans (c'.test_snd ctx candidates s).symm)

end Chain

/-- **Literal patterns are searches.**  A literal pattern answers what the search for its pieces
answers: the same status and, when they match, the same position for every slot.  So the patterns of
any links of a rule can be searched instead, and the rule answers the same: the same status, the same
replacements, the same error. -/
theorem literal_agrees_with_search (candidates : List Piece) (s : Scope) :
    (∀ pattern : List Piece, ((Matcher.literal pattern).test candidates s).1 =
      ((Matcher.search (pattern.map .literal)).test candidates s).1) ∧
    ∀ (c : Chain) (pick : Nat → Bool) (ctx : Context),
      (c.searchedWhere pick).test ctx candidates s = c.test ctx candidates s := by
  constructor
  · intro pattern
    rw [Matcher.test_fst, Matcher.test_fst]
    rfl
  · intro c pick ctx
    exact (Chain.test_congr_of_alike (c.alike_searchedWhere pick) ctx candidates s).symm

end HexRules
