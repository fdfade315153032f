import HexRules.Proofs.ChainSlots
import HexRules.Proofs.Computations
import HexRules.Proofs.Evaluation

/-!
# Matches of a chain

A chain that succeeds pairs its slots with the candidates, one to one: every slot accepts its
candidate, and the candidate's replacement is the value of the result of that very slot, with all
that the slots bind laid over the scope.

    replacements ctx u ms = .ok rs → (rs.map Prod.fst).Perm (taken ms)   (replacements_spec)
    a chain succeeds ↔ its links match and its results raise nothing     (test_eq_success_iff_walk)
    (c.test ctx candidates s).1 = .ok (.success rs) → Paired …           (paired_of_test)
    Paired … → the slots correspond to the candidates                    (Paired.index_bijective)
-/

namespace HexRules

namespace Chain

variable {ctx : Context} {u : Scope}

/-! ## Results -/

theorem linkReplacements_spec {m : Matched} {rs : List Replacement}
    (hlen : m.indices.length = m.link.results.length)
    (h : linkReplacements ctx u m = .ok rs) :
    rs.map Prod.fst = m.indices ∧
      List.Forall₂ (fun e index => ∃ p, e.replacement ctx u = .ok p ∧ (index, p) ∈ rs)
        m.link.results m.indices := by
  have hall := forall₂_of_mapM _ _ _ h
  clear h
  generalize m.link.results = es at hlen hall
  generalize m.indices = indices at hlen hall
  induction indices generalizing es rs with
  | nil =>
    cases es with
    | nil =>
      cases hall
      exact ⟨rfl, .nil⟩
    | cons e es => cases hlen
  | cons index indices ih =>
    cases es with
    | nil => cases hlen
    | cons e es =>
      cases hall with
      | @cons _ r _ rest hr hrest =>
        obtain ⟨hkeys, hvalues⟩ := ih es (Nat.succ.inj hlen) hrest
        obtain ⟨p, he, hr⟩ := exists_of_bind_ok hr
        cases hr
        refine ⟨by rw [List.map_cons, hkeys], .cons ⟨p, he, List.mem_cons_self⟩ ?_⟩
        refine hvalues.imp fun e' index' => ?_
        rintro ⟨p', hp', hm⟩
        exact ⟨p', hp', List.mem_cons_of_mem _ hm⟩

/-- The replacements of the links, link by link. -/
theorem flatten_spec {matched : List Matched} {parts : List (List Replacement)}
    (hlen : ∀ m ∈ matched, m.indices.length = m.link.results.length)
    (h : List.Forall₂ (fun m part => linkReplacements ctx u m = .ok part) matched parts) :
    parts.flatten.map Prod.fst = taken matched ∧
      List.Forall₂ (fun e index => ∃ p, e.replacement ctx u = .ok p ∧ (index, p) ∈ parts.flatten)
        (matched.flatMap fun m => m.link.results) (taken matched) := by
  induction h with
  | nil => exact ⟨rfl, .nil⟩
  | @cons m part matched parts hpart _ ih =>
    obtain ⟨hkeys, hvalues⟩ := ih fun m' hm => hlen m' (List.mem_cons_of_mem _ hm)
    obtain ⟨hkey, hvalue⟩ := linkReplacements_spec (hlen m List.mem_cons_self) hpart
    refine ⟨by rw [List.flatten_cons, List.map_append, hkey, hkeys]; rfl, ?_⟩
    refine List.rel_append (hvalue.imp fun e index => ?_) (hvalues.imp fun e index => ?_)
    · rintro ⟨p, hp, hm⟩
      exact ⟨p, hp, List.mem_append_left _ hm⟩
    · rintro ⟨p, hp, hm⟩
      exact ⟨p, hp, List.mem_append_right _ hm⟩

/-- Results are evaluated the last link first, which changes the order of the replacements only. -/
theorem replacements_spec {matched : List Matched} {rs : List Replacement}
    (hlen : ∀ m ∈ matched, m.indices.length = m.link.results.length)
    (h : replacements ctx u matched = .ok rs) :
    (rs.map Prod.fst).Perm (taken matched) ∧
      List.Forall₂ (fun e index => ∃ p, e.replacement ctx u = .ok p ∧ (index, p) ∈ rs)
        (matched.flatMap fun m => m.link.results) (taken matched) := by
  unfold replacements at h
  obtain ⟨parts, hparts, h⟩ := exists_of_bind_ok h
  have hall := forall₂_of_mapM _ _ _ hparts
  rw [← List.reverse_reverse parts, List.forall₂_reverse_iff] at hall
  obtain ⟨hkeys, hvalues⟩ := flatten_spec hlen hall
  have hperm : parts.reverse.flatten.Perm parts.flatten := (List.reverse_perm parts).flatten
  cases h
  refine ⟨?_, hvalues.imp fun e index => ?_⟩
  · rw [← hkeys]
    exact (hperm.map Prod.fst).symm
  · rintro ⟨p, hp, hm⟩
    exact ⟨p, hp, hperm.mem_iff.1 hm⟩

/-! ## Slots and candidates -/

/-- Number of slots of all links. -/
def totalLength (c : Chain) : Nat := c.lengths.foldr (· + ·) 0

theorem length_slots (c : Chain) : c.slots.length = c.totalLength := by
  rw [totalLength, lengths, slots]
  induction c.links with
  | nil => rfl
  | cons l rest ih =>
    rw [List.flatMap_cons, List.length_append, ih, l.length_slots]
    rfl

/-- A chain succeeds when all its links match and their results raise nothing. -/
theorem test_eq_success_iff_walk {c : Chain} {candidates : List Piece} {s : Scope}
    {rs : List Replacement} :
    (c.test ctx candidates s).1 = .ok (.success rs) ↔
      ∃ matched u, walk ctx c.links (candidates.zipIdx.map Prod.swap) s.push =
        (.ok (.success matched), u) ∧ replacements ctx u matched = .ok rs := by
  have htest : (c.test ctx candidates s).1 = (c.matchAll ctx candidates s.push).1 := rfl
  rw [htest, matchAll]
  cases walk ctx c.links (candidates.zipIdx.map Prod.swap) s.push with
  | mk answer u =>
    cases answer with
    | error e => simp
    | ok outcome =>
      cases outcome with
      | pending => simp
      | failure => simp
      | success matched => cases hr : replacements ctx u matched <;> simp [hr]

/-- A chain is pending when the walk of its links is. -/
theorem test_eq_pending_iff_walk {c : Chain} {candidates : List Piece} {s : Scope} :
    (c.test ctx candidates s).1 = .ok .pending ↔
      (walk ctx c.links (candidates.zipIdx.map Prod.swap) s.push).1 = .ok .pending := by
  have htest : (c.test ctx candidates s).1 = (c.matchAll ctx candidates s.push).1 := rfl
  rw [htest, matchAll]
  cases walk ctx c.links (candidates.zipIdx.map Prod.swap) s.push with
  | mk answer u =>
    cases answer with
    | error e => simp
    | ok outcome =>
      cases outcome with
      | pending => simp
      | failure => simp
      | success matched => cases hr : replacements ctx u matched <;> simp [hr]

theorem passes_of_test {c : Chain} {candidates : List Piece} {s : Scope} {rs : List Replacement}
    (h : (c.test ctx candidates s).1 = .ok (.success rs)) :
    ∃ matched u, Passes ctx c.links (candidates.zipIdx.map Prod.swap) s.push matched u ∧
      replacements ctx u matched = .ok rs := by
  obtain ⟨matched, u, hwalk, hrs⟩ := test_eq_success_iff_walk.1 h
  exact ⟨matched, u, passes_of_walk hwalk, hrs⟩

/-- In every link that has matched there is a result for every index. -/
theorem length_indices_of_passes {links : List Link} {indexed : List (Nat × Piece)} {s : Scope}
    {matched : List Matched} (h : Passes ctx links indexed s matched u) :
    ∀ m ∈ matched, m.indices.length = m.link.results.length := by
  induction h with
  | done s => simp
  | @link l rest indexed s u chosen matched fits guard onward ih =>
    intro m hm
    rcases List.mem_cons.1 hm with rfl | hm
    · have hpieces := fits.accepts.length_eq
      rw [piecesAt_eq, List.length_map] at hpieces
      rw [indicesAt_eq, List.length_map, ← hpieces, l.length_results, Matcher.length_slots]
    · exact ih m hm

/-- Every candidate is taken once, and replaced by the value of its slot's result. -/
theorem replacements_of_passes {links : List Link} {candidates : List Piece} {s : Scope}
    {matched : List Matched} {rs : List Replacement}
    (h : Passes ctx links (candidates.zipIdx.map Prod.swap) s matched u)
    (hrs : replacements ctx u matched = .ok rs) :
    (taken matched).Perm (List.range candidates.length) ∧
      (rs.map Prod.fst).Perm (taken matched) ∧
      List.Forall₂ (fun e index => ∃ p, e.replacement ctx u = .ok p ∧ findEntry index rs = some p)
        (links.flatMap Link.results) (taken matched) := by
  obtain ⟨hkeys, hvalues⟩ := replacements_spec (length_indices_of_passes h) hrs
  have hperm := perm_of_passes h
  rw [map_fst_zipIdx] at hperm
  have hnodup : (rs.map Prod.fst).Nodup := (hkeys.trans hperm).nodup_iff.2 List.nodup_range
  have hresults : (matched.flatMap fun m => m.link.results) = links.flatMap Link.results := by
    rw [← h.map_link, List.flatMap_map]
  rw [hresults] at hvalues
  refine ⟨hperm, hkeys, hvalues.imp fun e index => ?_⟩
  rintro ⟨p, hp, hm⟩
  exact ⟨p, hp, (findEntry_eq_some_iff index p rs hnodup).2 hm⟩

/-- The slots of a chain, in order, paired with indices of candidates. -/
structure Paired (c : Chain) (ctx : Context) (candidates : List Piece) (s : Scope)
    (rs : List Replacement) (order : List Nat) (pieces : List Piece) : Prop where
  perm : order.Perm (List.range candidates.length)
  keys : (rs.map Prod.fst).Perm order
  pieces_eq : List.Forall₂ (fun index p => candidates[index]? = some p) order pieces
  accepts : List.Forall₂ (fun slot p => slot.predicate.accepts p = true) c.slots pieces
  results : List.Forall₂ (fun slot index => ∃ p,
    slot.result.replacement ctx (s.overlay (slotBindings c.slots pieces)) = .ok p ∧
      findEntry index rs = some p) c.slots order

theorem paired_of_test {c : Chain} {candidates : List Piece} {s : Scope} {rs : List Replacement}
    (h : (c.test ctx candidates s).1 = .ok (.success rs)) :
    ∃ order pieces, Paired c ctx candidates s rs order pieces := by
  obtain ⟨matched, u, hpasses, hrs⟩ := passes_of_test h
  obtain ⟨pieces, hindices, haccepts, hscope⟩ := pieces_of_passes hpasses
  obtain ⟨hperm, hkeys, hresults⟩ := replacements_of_passes hpasses hrs
  have hmap : c.links.flatMap Link.results = c.slots.map Slot.result := by
    rw [slots, List.map_flatMap]
    congr 1
    funext l
    exact l.map_result_slots.symm
  rw [hmap, List.forall₂_map_left_iff] at hresults
  refine ⟨taken matched, pieces, hperm, hkeys, ?_, haccepts, ?_⟩
  · refine hindices.imp fun index p hm => ?_
    obtain ⟨entry, he, hswap⟩ := List.mem_map.1 hm
    obtain ⟨rfl, rfl⟩ := Prod.mk.inj hswap
    exact List.mem_zipIdx_iff_getElem?.1 he
  · refine hresults.imp fun slot index => ?_
    rintro ⟨p, hp, hfind⟩
    refine ⟨p, ?_, hfind⟩
    rw [← hp]
    refine Expression.replacement_congr (Context.Alike.refl ctx) _ fun name _ => ?_
    rw [Scope.get?_overlay, hscope name]
    rfl

namespace Paired

variable {c : Chain} {candidates : List Piece} {s : Scope} {rs : List Replacement}
  {order : List Nat} {pieces : List Piece} (h : Paired c ctx candidates s rs order pieces)

include h

theorem length_eq : c.slots.length = order.length := h.results.length_eq

theorem length_candidates : order.length = candidates.length := by
  rw [h.perm.length_eq, List.length_range]

theorem lt_of_mem {index : Nat} (hm : index ∈ order) : index < candidates.length :=
  List.mem_range.1 (h.perm.mem_iff.1 hm)

/-- The index of the candidate that a slot takes. -/
def index (j : Fin c.slots.length) : Fin candidates.length :=
  ⟨order.get (j.cast h.length_eq), h.lt_of_mem (List.get_mem order _)⟩

theorem index_bijective : Function.Bijective h.index := by
  have hnodup : order.Nodup := h.perm.nodup_iff.2 List.nodup_range
  constructor
  · intro i j hij
    have hget := List.nodup_iff_injective_get.1 hnodup (congrArg Fin.val hij)
    have hval : (i.cast h.length_eq).val = (j.cast h.length_eq).val := congrArg Fin.val hget
    exact Fin.ext hval
  · intro index
    have hm : index.val ∈ order := h.perm.mem_iff.2 (List.mem_range.2 index.isLt)
    obtain ⟨j, hj⟩ := List.mem_iff_get.1 hm
    refine ⟨j.cast h.length_eq.symm, ?_⟩
    apply Fin.ext
    rw [← hj]
    rfl

theorem get_index (j : Fin c.slots.length) (hj : j.val < pieces.length) :
    candidates.get (h.index j) = pieces.get ⟨j.val, hj⟩ := by
  have hget := h.pieces_eq.get (j.cast h.length_eq).isLt hj
  exact Option.some.inj ((List.getElem?_eq_getElem _).symm.trans hget)

theorem ofFn_get_index : (List.ofFn fun j => candidates.get (h.index j)) = pieces := by
  have hlen := h.accepts.length_eq
  apply List.ext_getElem
  · rw [List.length_ofFn, hlen]
  · intro j hj hp
    rw [List.getElem_ofFn]
    exact h.get_index _ hp

theorem accepts_get_index (j : Fin c.slots.length) :
    (c.slots.get j).predicate.accepts (candidates.get (h.index j)) = true := by
  have hlen := h.accepts.length_eq
  rw [h.get_index j (by omega)]
  exact h.accepts.get j.isLt (by omega)

end Paired

end Chain

/-! ## Rule sets -/

namespace RuleSet

/-- The rule that succeeds is tested on the scope as it was before the rules that did not. -/
theorem test_of_testFrom {ctx : Context} {candidates : List Piece} {number : Nat} {pending : Bool}
    {rules : List Chain} {s : Scope} {m : RuleMatch}
    (h : (testFrom ctx candidates number pending rules s).1 = .ok (.success m)) :
    ∃ c rs, number ≤ m.rule ∧ rules[m.rule - number]? = some c ∧
      (c.test ctx candidates s).1 = .ok (.success rs) ∧
      m.replacements = inOrder candidates.length rs := by
  induction rules generalizing number pending with
  | nil => cases pending <;> cases h
  | cons c rest ih =>
    have hs := c.test_snd ctx candidates s
    cases hr : c.test ctx candidates s with
    | mk answer t =>
      rw [hr] at hs
      simp only at hs
      rw [testFrom, hr, hs] at h
      have hnext : ∀ pending', (testFrom ctx candidates (number + 1) pending' rest s).1 =
          .ok (.success m) → ∃ c' rs, number ≤ m.rule ∧ (c :: rest)[m.rule - number]? = some c' ∧
            (c'.test ctx candidates s).1 = .ok (.success rs) ∧
            m.replacements = inOrder candidates.length rs := by
        intro pending' h'
        obtain ⟨c', rs, hle, hget, htest, hm⟩ := ih h'
        refine ⟨c', rs, by omega, ?_, htest, hm⟩
        rw [show m.rule - number = m.rule - (number + 1) + 1 by omega, List.getElem?_cons_succ]
        exact hget
      cases answer with
      | error e => cases h
      | ok outcome =>
        cases outcome with
        | success rs =>
          cases h
          exact ⟨c, rs, Nat.le_refl _, by simp, by rw [hr], rfl⟩
        | pending => exact hnext true h
        | failure => exact hnext pending h

theorem getElem?_inOrder (count : Nat) (rs : List Replacement) (index : Nat) (h : index < count)
    (p : Option Piece) (hp : findEntry index rs = some p) :
    (inOrder count rs)[index]? = some p := by
  rw [inOrder, List.getElem?_map, List.getElem?_range h, Option.map_some, hp]
  rfl

end RuleSet

/-- **Slots and candidates.**  A rule that succeeds replaces every candidate once.  It has as many
slots as there are candidates, and pairs them one to one: every slot accepts its candidate, and the
candidate's replacement is the value of the slot's own result.  A rule set that succeeds has a
replacement of its successful rule for every candidate. -/
theorem success_pairs_slots (ctx : Context) (candidates : List Piece) (s : Scope) :
    (∀ (c : Chain) (rs : List Replacement), (c.test ctx candidates s).1 = .ok (.success rs) →
      (rs.map Prod.fst).Perm (List.range candidates.length) ∧
      candidates.length = c.totalLength ∧
      ∃ f : Fin c.slots.length → Fin candidates.length, Function.Bijective f ∧
        ∀ j, ((c.slots.get j).predicate.test (candidates.get (f j)) s).1 = true ∧
          ∃ p, (c.slots.get j).result.replacement ctx (s.overlay
              (slotBindings c.slots (List.ofFn fun i => candidates.get (f i)))) = .ok p ∧
            findEntry (f j).val rs = some p) ∧
    ∀ (t : RuleSet) (m : RuleMatch), (t.test ctx candidates s).1 = .ok (.success m) →
      m.replacements.length = candidates.length ∧
      ∃ c rs, t.rules[m.rule]? = some c ∧ (c.test ctx candidates s).1 = .ok (.success rs) ∧
        ∀ index, index < candidates.length →
          ∃ p, findEntry index rs = some p ∧ m.replacements[index]? = some p := by
  constructor
  · intro c rs hrs
    obtain ⟨order, pieces, h⟩ := Chain.paired_of_test hrs
    refine ⟨h.keys.trans h.perm, ?_, h.index, h.index_bijective, ?_⟩
    · rw [← c.length_slots, h.length_eq, h.length_candidates]
    · intro j
      rw [h.ofFn_get_index, Predicate.test_eq]
      exact ⟨h.accepts_get_index j, h.results.get j.isLt (by rw [← h.length_eq]; exact j.isLt)⟩
  · intro t m hm
    obtain ⟨c, rs, -, hget, hrs, hreplacements⟩ := RuleSet.test_of_testFrom hm
    obtain ⟨order, pieces, h⟩ := Chain.paired_of_test hrs
    refine ⟨by rw [hreplacements, RuleSet.inOrder, List.length_map, List.length_range],
      c, rs, hget, hrs, ?_⟩
    intro index hi
    have hkey : index ∈ rs.map Prod.fst :=
      (h.keys.trans h.perm).mem_iff.2 (List.mem_range.2 hi)
    obtain ⟨⟨index', p⟩, he, rfl⟩ := List.mem_map.1 hkey
    have hnodup : (rs.map Prod.fst).Nodup :=
      (h.keys.trans h.perm).nodup_iff.2 List.nodup_range
    have hp := (findEntry_eq_some_iff index' p rs hnodup).2 he
    exact ⟨p, hp, by rw [hreplacements, RuleSet.getElem?_inOrder _ rs index' hi p hp]⟩

namespace Relay

def red : Piece := ⟨"relay", "red"⟩
def blue : Piece := ⟨"relay", "blue"⟩
def green : Piece := ⟨"relay", "green"⟩

def context : Context := ⟨⟨Catalog.empty "relay", Board.empty 1⟩, Coord.origin⟩

/-- The first slot is tried with the red piece, which only the second slot can take. -/
def colours : Link where
  matcher := .search [.member [red, blue] (some "first"), .member [red] (some "second")]
  guard := some (.equal [.binding "first", .const (.piece (some blue))])
  results := [.binding "second", .const .empty]
  length_results := rfl

def last : Link := ⟨.search [.literal green], none, [.binding "first"], rfl⟩

def chain : Chain := ⟨colours, [last]⟩

/-- Two slots for the one green piece. -/
def refused : Chain :=
  ⟨⟨.search [.literal green, .literal green], none, [.const .empty, .const .empty], rfl⟩, []⟩

theorem test_chain : (chain.test context [red, blue, green] Scope.empty).1 =
    .ok (.success [(2, some blue), (1, some red), (0, none)]) := by
  simp only [Chain.test, Scope.frame, Chain.matchAll, Chain.walk, Chain.links, chain, colours, last,
    Matcher.test, Matcher.testSearch, Matcher.searchSlots, Assignment.assign_eq_place]
  rfl

theorem test_rules : ((RuleSet.mk [refused, chain]).test context [red, blue, green]
    Scope.empty).1 = .ok (.success ⟨1, [none, some red, some blue]⟩) := by
  simp only [RuleSet.test, RuleSet.testFrom, Chain.test, Scope.frame, Chain.matchAll, Chain.walk,
    Chain.links, refused, chain, colours, last, Matcher.test, Matcher.testSearch,
    Matcher.searchSlots, Matcher.searchCandidates, Assignment.assign_eq_place]
  rfl

/-- The slots of a rule and of a rule set that has refused another rule before it. -/
theorem pairs_slots :
    (chain.test context [red, blue, green] Scope.empty).1 =
        .ok (.success [(2, some blue), (1, some red), (0, none)]) ∧
      3 = chain.totalLength ∧
      (∃ f : Fin chain.slots.length → Fin 3, Function.Bijective f) ∧
      ((RuleSet.mk [refused, chain]).test context [red, blue, green] Scope.empty).1 =
        .ok (.success ⟨1, [none, some red, some blue]⟩) ∧
      ∃ c rs, [refused, chain][1]? = some c ∧
        (c.test context [red, blue, green] Scope.empty).1 = .ok (.success rs) := by
  have hpairs := success_pairs_slots context [red, blue, green] Scope.empty
  obtain ⟨-, hlength, f, hf, -⟩ := hpairs.1 chain _ test_chain
  obtain ⟨-, c, rs, hget, hrs, -⟩ := hpairs.2 ⟨[refused, chain]⟩ _ test_rules
  exact ⟨test_chain, hlength, ⟨f, hf⟩, test_rules, c, rs, hget, hrs⟩

end Relay

end HexRules
