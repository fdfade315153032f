import HexRules.Proofs.FirstServed
import HexRules.Proofs.SingleLink

/-!
# Flattening

A chain whose links have literal patterns, no guards and constant results does what a rule of one
link does, whose slots are those of its links, one link after the other: every link serves its slots
from what the links before it left, so they serve all slots in turn.

    a walk of the links succeeds ↔ serve (their pieces, link by link) serves all slots and leaves
      nothing over                                         (serve_of_walk, exists_walk_of_serve)
    a walk of the links is pending → some pieces more make the candidates the pieces of the links
                                                           (exists_missing_of_walk)
    the chain and the flat rule succeed on the same candidates, with the same replacements
                                                           (flatten_agrees)
-/

namespace HexRules

/-! ## Fixed links -/

namespace Link

/-- The pieces of a literal pattern. -/
def pieces (l : Link) : List Piece :=
  match l.matcher with
  | .literal pieces => pieces
  | .search _ => []

/-- A literal pattern, no guard, and a constant piece or the empty piece for every slot. -/
structure Fixed (l : Link) : Prop where
  matcher_eq : l.matcher = .literal l.pieces
  guard_eq : l.guard = none
  constant : ∀ e ∈ l.results, ∃ p, e = .const (.piece p)

theorem Fixed.length_results {l : Link} (h : l.Fixed) : l.results.length = l.pieces.length := by
  rw [l.length_results, h.matcher_eq]
  rfl

theorem Fixed.matcher_test {l : Link} (h : l.Fixed) (candidates : List Piece) (s : Scope) :
    l.matcher.test candidates s = (Matcher.testLiteral l.pieces candidates, s) := by
  rw [h.matcher_eq]
  rfl

end Link

namespace Chain

variable {ctx : Context} {l : Link} {rest links : List Link} {indexed : List (Nat × Piece)}
  {s u : Scope} {matched : List Matched}

theorem length_flatMap_results (h : ∀ l ∈ links, l.Fixed) :
    (links.flatMap Link.results).length = (links.flatMap Link.pieces).length := by
  induction links with
  | nil => rfl
  | cons l rest ih =>
    obtain ⟨hl, hrest⟩ := List.forall_mem_cons.1 h
    rw [List.flatMap_cons, List.flatMap_cons, List.length_append, List.length_append,
      hl.length_results, ih hrest]

/-- The pieces that a chain of literal patterns asks for, link by link. -/
def inputs (c : Chain) : List Piece := c.links.flatMap Link.pieces

/-- The rule of one link with the slots of all links, in chain order. -/
def flatten (c : Chain) (h : ∀ l ∈ c.links, l.Fixed) : Chain :=
  ⟨⟨.literal c.inputs, none, c.links.flatMap Link.results, length_flatMap_results h⟩, []⟩

/-! ## Walks -/

/-- A fixed link does what its pattern says. -/
theorem walk_cons_fixed (hl : l.Fixed) (ctx : Context) (rest : List Link)
    (indexed : List (Nat × Piece)) (s : Scope) :
    walk ctx (l :: rest) indexed s =
      match Matcher.testLiteral l.pieces (indexed.map Prod.snd) with
      | .pending => (.ok .pending, s.push)
      | .failure => (.ok .failure, s.push)
      | .success chosen => withLink ⟨l, indicesAt indexed chosen⟩
          (walk ctx rest (Link.leftover indexed chosen) s.push) := by
  have hguard : l.guardHolds ctx s.push = .ok true := by
    rw [Link.guardHolds, hl.guard_eq]
  rw [walk, hl.matcher_test]
  cases Matcher.testLiteral l.pieces (indexed.map Prod.snd) with
  | pending => rfl
  | failure => rfl
  | success chosen =>
    simp only [hguard]
    rfl

/-- Links that match serve their slots in turn, and leave nothing over. -/
theorem serve_of_walk (hfixed : ∀ l ∈ links, l.Fixed)
    (h : walk ctx links indexed s = (.ok (.success matched), u)) :
    serve (links.flatMap Link.pieces) indexed = some (taken matched, []) := by
  induction links generalizing indexed s matched with
  | nil =>
    rw [walk] at h
    cases indexed with
    | nil =>
      cases h
      rfl
    | cons entry rest => cases h
  | cons l rest ih =>
    obtain ⟨hl, hrest⟩ := List.forall_mem_cons.1 hfixed
    rw [walk_cons_fixed hl] at h
    cases htest : Matcher.testLiteral l.pieces (indexed.map Prod.snd) with
    | pending => simp [htest] at h
    | failure => simp [htest] at h
    | success chosen =>
      simp only [htest] at h
      obtain ⟨after, hafter, rfl⟩ := exists_of_withLink h
      rw [List.flatMap_cons, serve_append, Matcher.serve_of_testLiteral htest, Option.bind_some,
        ih hrest hafter]
      rfl

/-- Slots that can be served in turn make all links match. -/
theorem exists_walk_of_serve (ctx : Context) (hfixed : ∀ l ∈ links, l.Fixed) {order : List Nat}
    (h : serve (links.flatMap Link.pieces) indexed = some (order, [])) (s : Scope) :
    ∃ matched u, walk ctx links indexed s = (.ok (.success matched), u) := by
  induction links generalizing indexed order s with
  | nil =>
    cases h
    exact ⟨[], s, rfl⟩
  | cons l rest ih =>
    obtain ⟨hl, hrest⟩ := List.forall_mem_cons.1 hfixed
    rw [List.flatMap_cons, serve_append] at h
    obtain ⟨⟨own, left⟩, hown, h⟩ := Option.bind_eq_some_iff.1 h
    obtain ⟨⟨others, _⟩, hothers, heq⟩ := Option.map_eq_some_iff.1 h
    cases heq
    obtain ⟨chosen, htest, -, rfl⟩ := Matcher.exists_testLiteral_of_serve hown
    obtain ⟨matched, u, hwalk⟩ := ih hrest hothers s.push
    refine ⟨⟨l, indicesAt indexed chosen⟩ :: matched, u, ?_⟩
    rw [walk_cons_fixed hl, htest]
    simp only [hwalk]
    rfl

/-- Links that are pending have matched so far, and the next one would take some pieces more. -/
theorem exists_missing_of_walk (hfixed : ∀ l ∈ links, l.Fixed)
    (h : (walk ctx links indexed s).1 = .ok .pending) :
    ∃ missing, missing ≠ [] ∧
      (indexed.map Prod.snd ++ missing).Perm (links.flatMap Link.pieces) := by
  induction links generalizing indexed s with
  | nil =>
    rw [walk] at h
    split at h <;> cases h
  | cons l rest ih =>
    obtain ⟨hl, hrest⟩ := List.forall_mem_cons.1 hfixed
    rw [List.flatMap_cons]
    rw [walk_cons_fixed hl] at h
    rcases Matcher.testLiteral_cases l.pieces (indexed.map Prod.snd) with
      ⟨-, chosen, htest⟩ | ⟨hno, ⟨hsub, htest⟩ | ⟨-, htest⟩⟩
    · simp only [htest] at h
      obtain ⟨missing, hne, hperm⟩ := ih hrest (eq_of_withLink_pending h)
      have htaken := (perm_of_serve (Matcher.serve_of_testLiteral htest)).append_right missing
      rw [List.append_assoc] at htaken
      exact ⟨missing, hne, htaken.trans (hperm.append_left l.pieces)⟩
    · have hperm := List.subperm_append_diff_self_of_count_le fun x _ => hsub.count_le x
      refine ⟨l.pieces.diff (indexed.map Prod.snd) ++ rest.flatMap Link.pieces, ?_, ?_⟩
      · intro hnil
        rw [(List.append_eq_nil_iff.1 hnil).1, List.append_nil] at hperm
        exact hno hperm.symm.subperm
      · rw [← List.append_assoc]
        exact hperm.append_right _
    · simp [htest] at h

/-! ## Tests -/

variable {c : Chain} {candidates : List Piece}

/-- A chain of fixed links that succeeds serves its slots in turn, and every index that a slot is
served is replaced by the constant of that slot. -/
theorem serve_of_test (hfixed : ∀ l ∈ c.links, l.Fixed) {rs : List Replacement}
    (h : (c.test ctx candidates s).1 = .ok (.success rs)) :
    ∃ order, serve c.inputs (candidates.zipIdx.map Prod.swap) = some (order, []) ∧
      (rs.map Prod.fst).Perm order ∧
      List.Forall₂ (fun e index => ∃ p, e = .const (.piece p) ∧ findEntry index rs = some p)
        (c.links.flatMap Link.results) order := by
  obtain ⟨matched, u, hwalk, hrs⟩ := test_eq_success_iff_walk.1 h
  obtain ⟨-, hkeys, hvalues⟩ := replacements_of_passes (passes_of_walk hwalk) hrs
  refine ⟨taken matched, serve_of_walk hfixed hwalk, hkeys, ?_⟩
  refine List.forall₂_iff_get.2 ⟨hvalues.length_eq, fun i hi hi' => ?_⟩
  obtain ⟨p, hp, hfind⟩ := hvalues.get hi hi'
  obtain ⟨l, hl, he⟩ := List.mem_flatMap.1 (List.get_mem (c.links.flatMap Link.results) ⟨i, hi⟩)
  obtain ⟨q, hq⟩ := (hfixed l hl).constant _ he
  rw [hq] at hp
  cases hp
  exact ⟨p, hq, hfind⟩

theorem exists_success_of_serve (hfixed : ∀ l ∈ c.links, l.Fixed) {order : List Nat}
    (h : serve c.inputs (candidates.zipIdx.map Prod.swap) = some (order, [])) (ctx : Context)
    (s : Scope) : ∃ rs, (c.test ctx candidates s).1 = .ok (.success rs) := by
  obtain ⟨matched, u, hwalk⟩ := exists_walk_of_serve ctx hfixed h s.push
  obtain ⟨rs, hrs⟩ : ∃ rs, replacements ctx u matched = .ok rs := by
    refine exists_replacements fun m hm e he => ?_
    have hlink : m.link ∈ c.links := by
      rw [← (passes_of_walk hwalk).map_link]
      exact List.mem_map_of_mem hm
    obtain ⟨p, rfl⟩ := (hfixed m.link hlink).constant e he
    exact ⟨p, rfl⟩
  exact ⟨rs, test_eq_success_iff_walk.2 ⟨matched, u, hwalk, hrs⟩⟩

/-- Chains of fixed links with the same slots, whatever the links that they belong to, replace the
same candidates in the same way. -/
theorem exists_success_of_same_slots {c' : Chain} (hfixed : ∀ l ∈ c.links, l.Fixed)
    (hfixed' : ∀ l ∈ c'.links, l.Fixed) (hinputs : c'.inputs = c.inputs)
    (hresults : c'.links.flatMap Link.results = c.links.flatMap Link.results)
    {rs : List Replacement} (h : (c.test ctx candidates s).1 = .ok (.success rs)) :
    ∃ rs', (c'.test ctx candidates s).1 = .ok (.success rs') ∧
      ∀ index, findEntry index rs' = findEntry index rs := by
  obtain ⟨order, hserve, hkeys, hvalues⟩ := serve_of_test hfixed h
  rw [← hinputs] at hserve
  obtain ⟨rs', hrs'⟩ := exists_success_of_serve hfixed' hserve ctx s
  obtain ⟨order', hserve', hkeys', hvalues'⟩ := serve_of_test hfixed' hrs'
  cases hserve.symm.trans hserve'
  rw [hresults] at hvalues'
  refine ⟨rs', hrs', fun index => ?_⟩
  by_cases hm : index ∈ order
  · obtain ⟨i, rfl⟩ := List.mem_iff_get.1 hm
    have hi : i.val < (c.links.flatMap Link.results).length := by
      rw [hvalues.length_eq]
      exact i.isLt
    obtain ⟨p, hp, hfind⟩ := hvalues.get hi i.isLt
    obtain ⟨p', hp', hfind'⟩ := hvalues'.get hi i.isLt
    cases hp.symm.trans hp'
    exact hfind'.trans hfind.symm
  · have hnone : ∀ {es : List Replacement}, (es.map Prod.fst).Perm order →
        findEntry index es = none := by
      intro es hes
      rw [← Option.not_isSome_iff_eq_none, isSome_findEntry_iff, hes.mem_iff]
      exact hm
    rw [hnone hkeys, hnone hkeys']

/-! ## Flat rules -/

theorem fixed_flatten (h : ∀ l ∈ c.links, l.Fixed) : ∀ l ∈ (c.flatten h).links, l.Fixed := by
  intro l hl
  rw [List.mem_singleton.1 hl]
  refine ⟨rfl, rfl, fun e he => ?_⟩
  obtain ⟨l', hl', he'⟩ := List.mem_flatMap.1 he
  exact (h l' hl').constant e he'

theorem inputs_flatten (h : ∀ l ∈ c.links, l.Fixed) : (c.flatten h).inputs = c.inputs :=
  List.append_nil _

theorem results_flatten (h : ∀ l ∈ c.links, l.Fixed) :
    (c.flatten h).links.flatMap Link.results = c.links.flatMap Link.results :=
  List.append_nil _

/-- The flat rule is pending whenever some pieces are missing. -/
theorem test_flatten_of_missing (h : ∀ l ∈ c.links, l.Fixed) {missing : List Piece}
    (hne : missing ≠ []) (hperm : (candidates ++ missing).Perm c.inputs) (ctx : Context)
    (s : Scope) : ((c.flatten h).test ctx candidates s).1 = .ok .pending := by
  have htest : Matcher.testLiteral c.inputs candidates = .pending := by
    have hlen := hperm.length_eq
    have hpos := List.length_pos_iff.2 hne
    have hsub : candidates.Subperm c.inputs :=
      (List.sublist_append_left _ _).subperm.trans hperm.subperm
    rcases Matcher.testLiteral_cases c.inputs candidates with ⟨hsub', -⟩ | ⟨-, ⟨-, ht⟩ | ⟨hno, -⟩⟩
    · have hle := hsub'.length_le
      rw [List.length_append] at hlen
      omega
    · exact ht
    · exact absurd hsub hno
  rw [test_eq_pending_iff_walk, links, walk_cons_fixed (fixed_flatten h _ List.mem_cons_self),
    map_snd_zipIdx, show (c.flatten h).first.pieces = c.inputs from rfl, htest]

end Chain

/-- **Flattening.**  Take a chain of links with literal patterns, no guards and constant results,
and the rule of one link whose pattern and results are those of its links one after the other.  On
any candidates one of them succeeds exactly if the other does, and every candidate has the same
replacement; when the chain is pending, the flat rule is too. -/
theorem flatten_agrees (c : Chain) (h : ∀ l ∈ c.links, l.Fixed) (ctx : Context)
    (candidates : List Piece) (s : Scope) :
    (∀ rs, (c.test ctx candidates s).1 = .ok (.success rs) →
      ∃ rs', ((c.flatten h).test ctx candidates s).1 = .ok (.success rs') ∧
        ∀ index, findEntry index rs' = findEntry index rs) ∧
    (∀ rs', ((c.flatten h).test ctx candidates s).1 = .ok (.success rs') →
      ∃ rs, (c.test ctx candidates s).1 = .ok (.success rs) ∧
        ∀ index, findEntry index rs = findEntry index rs') ∧
    ((c.test ctx candidates s).1 = .ok .pending →
      ((c.flatten h).test ctx candidates s).1 = .ok .pending) := by
  have hflat := Chain.fixed_flatten h
  have hinputs := Chain.inputs_flatten h
  have hresults := Chain.results_flatten h
  refine ⟨fun rs hrs => ?_, fun rs' hrs' => ?_, fun hpending => ?_⟩
  · exact Chain.exists_success_of_same_slots h hflat hinputs hresults hrs
  · exact Chain.exists_success_of_same_slots hflat h hinputs.symm hresults.symm hrs'
  · have hwalk := Chain.test_eq_pending_iff_walk.1 hpending
    obtain ⟨missing, hne, hperm⟩ := Chain.exists_missing_of_walk h hwalk
    rw [Chain.map_snd_zipIdx] at hperm
    exact Chain.test_flatten_of_missing h hne hperm ctx s

namespace Relay

/-- Two links that both ask for a red piece. -/
def handover : Chain where
  first := ⟨.literal [red, blue], none, [.const (.piece none), .const (.piece (some red))], rfl⟩
  next := [⟨.literal [red], none, [.const (.piece (some green))], rfl⟩]

theorem fixed_handover : ∀ l ∈ handover.links, l.Fixed := by
  intro l hl
  rcases List.mem_pair.1 hl with rfl | rfl
  · refine ⟨rfl, rfl, fun e he => ?_⟩
    rcases List.mem_pair.1 he with rfl | rfl
    · exact ⟨none, rfl⟩
    · exact ⟨some red, rfl⟩
  · refine ⟨rfl, rfl, fun e he => ?_⟩
    rw [List.mem_singleton.1 he]
    exact ⟨some green, rfl⟩

/-- The first of the two red pieces goes to the first link, in the flat rule to the first slot; one
red piece alone is waiting for the others in both. -/
theorem handover_flattened :
    (∀ l ∈ handover.links, l.Fixed) ∧
      (∃ rs rs', (handover.test context [red, red, blue] Scope.empty).1 = .ok (.success rs) ∧
        ((handover.flatten fixed_handover).test context [red, red, blue] Scope.empty).1 =
          .ok (.success rs') ∧
        ∀ index, findEntry index rs' = findEntry index rs) ∧
      (handover.test context [red] Scope.empty).1 = .ok .pending ∧
      ((handover.flatten fixed_handover).test context [red] Scope.empty).1 = .ok .pending := by
  have hserve : serve handover.inputs ([red, red, blue].zipIdx.map Prod.swap) =
      some ([0, 2, 1], []) := rfl
  obtain ⟨rs, hrs⟩ := Chain.exists_success_of_serve fixed_handover hserve context Scope.empty
  obtain ⟨rs', hrs', hsame⟩ :=
    (flatten_agrees handover fixed_handover context [red, red, blue] Scope.empty).1 rs hrs
  have hpending : (handover.test context [red] Scope.empty).1 = .ok .pending := by
    simp only [Chain.test, Scope.frame, Chain.matchAll, Chain.walk, Chain.links, handover,
      Matcher.test, Matcher.testLiteral_eq_outcome]
    rfl
  exact ⟨fixed_handover, ⟨rs, rs', hrs, hrs', hsame⟩, hpending,
    (flatten_agrees handover fixed_handover context [red] Scope.empty).2.2 hpending⟩

/-- The flat rule may be pending where the chain fails: two red pieces do not fit the first link. -/
example : (handover.test context [red, red] Scope.empty).1 = .ok .failure ∧
    ((handover.flatten fixed_handover).test context [red, red] Scope.empty).1 = .ok .pending := by
  simp only [Chain.test, Scope.frame, Chain.matchAll, Chain.walk, Chain.links, Chain.flatten,
    handover, Matcher.test, Matcher.testLiteral_eq_outcome]
  exact ⟨rfl, rfl⟩

end Relay

end HexRules
