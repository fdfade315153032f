import HexRules.Proofs.ConditionGrammar
import HexRules.Rules.Compile

/-!
# The grammar of rules

Which rule documents are compiled, with the functions and predicates of the library.  A slot names a
piece, or it describes a predicate by a tag or a mapping of the game and by texts under which it
binds; guards and results are conditions, and a link that has results has one for each slot.

    Succeeds ((standard g).slot item) ↔ IsSlot g.catalog item            (succeeds_slot_iff)
    Succeeds ((standard g).link d) ↔ d.IsLink g.catalog                  (succeeds_link_iff)
    Succeeds ((standard g).rule d) ↔ d.IsRule g.catalog                  (succeeds_rule_iff)
-/

namespace HexRules

/-! ## Slots -/

namespace PredicateKind

def name : PredicateKind → String
  | member => "mapping-key"
  | key => "tag"

theorem get?_builtinPredicates (i : Identifier) (kind : PredicateKind) :
    builtinPredicates.builders.get? i = some kind ↔ i = ⟨Registry.builtinSpace, kind.name⟩ := by
  rw [builtinPredicates, Registry.get?_ofBuiltins (by decide)]
  constructor
  · rintro ⟨name, rfl, hmem⟩
    simp only [List.mem_cons, List.not_mem_nil, or_false, Prod.mk.injEq] at hmem
    rcases hmem with ⟨rfl, rfl⟩ | ⟨rfl, rfl⟩ <;> rfl
  · rintro rfl
    refine ⟨kind.name, rfl, ?_⟩
    cases kind <;> simp [name]

end PredicateKind

/-- A member that is missing, null or a text. -/
def OptionalText (members : List (String × Json)) (key : String) : Prop :=
  ∀ j, findEntry key members = some j → j = .null ∨ ∃ s, j = .string s

/-- A value that is read as a slot of a pattern. -/
inductive IsSlot (c : Catalog) : InputItem → Prop
  | piece {name : String} {p : Piece} (hname : Identifier.Written c.id name p)
      (hp : p ∈ c.pieces) : IsSlot c (.piece name)
  | member {members : List (String × Json)} {tag : String} {pieces : List Piece}
      (htype : HasType members "mapping-key") (htag : findEntry "tag" members = some (.string tag))
      (hpieces : c.tags.get? tag = some pieces) (hbind : OptionalText members "bind") :
    IsSlot c (.object members)
  | key {members : List (String × Json)} {name : String} {table : Table Piece Piece}
      (htype : HasType members "tag") (hmapping : findEntry "mapping" members = some (.string name))
      (htable : c.mappings.get? name = some table) (hkey : OptionalText members "bind-key")
      (hvalue : OptionalText members "bind-val") : IsSlot c (.object members)

/-- The members that a predicate of a kind asks for. -/
def KindForm (c : Catalog) (members : List (String × Json)) : PredicateKind → Prop
  | .member => NamesEntry c.tags members "tag" ∧ OptionalText members "bind"
  | .key => NamesEntry c.mappings members "mapping" ∧ OptionalText members "bind-key" ∧
    OptionalText members "bind-val"

theorem isSlot_object_iff {c : Catalog} {members : List (String × Json)} :
    IsSlot c (.object members) ↔
      ∃ kind : PredicateKind, HasType members kind.name ∧ KindForm c members kind := by
  constructor
  · intro h
    cases h with
    | member htype htag hpieces hbind => exact ⟨.member, htype, ⟨_, _, htag, hpieces⟩, hbind⟩
    | key htype hmapping htable hkey hvalue =>
      exact ⟨.key, htype, ⟨_, _, hmapping, htable⟩, hkey, hvalue⟩
  · rintro ⟨kind, htype, hform⟩
    cases kind with
    | member =>
      obtain ⟨⟨tag, pieces, htag, hpieces⟩, hbind⟩ := hform
      exact .member htype htag hpieces hbind
    | key =>
      obtain ⟨⟨name, table, hmapping, htable⟩, hkey, hvalue⟩ := hform
      exact .key htype hmapping htable hkey hvalue

namespace Compiler

open Succeeds

variable {c : Catalog} {g : Game} {members : List (String × Json)}

theorem succeeds_textField?_iff (key : String) :
    Succeeds (textField? members key) ↔ OptionalText members key := by
  unfold textField? OptionalText
  cases findEntry key members with
  | none => simp
  | some j => cases j <;> simp

theorem textField_eq_ok_iff (type key s : String) :
    textField members type key = .ok s ↔ findEntry key members = some (.string s) := by
  unfold textField textField?
  cases findEntry key members with
  | none => simp [bind, Except.bind]
  | some j => cases j <;> simp [bind, Except.bind]

theorem succeeds_tag_iff {name : String} :
    Succeeds (c.tag name) ↔ ∃ pieces, c.tags.get? name = some pieces := by
  unfold Catalog.tag
  cases c.tags.get? name with
  | none => simp
  | some pieces => simp

/-- A text member is read and looked up in a table before the rest, which does not depend on the
entry. -/
theorem succeeds_entry_iff {α β : Type} {type key : String} {table : Table String α}
    {look : String → Except CompileError α} {f : α → Except CompileError β} {P : Prop}
    (hlook : ∀ name, Succeeds (look name) ↔ ∃ entry, table.get? name = some entry)
    (hf : ∀ entry, Succeeds (f entry) ↔ P) :
    Succeeds (textField members type key >>= fun name => look name >>= f) ↔
      NamesEntry table members key ∧ P := by
  have hrest : ∀ name, Succeeds (look name >>= f) ↔ (∃ entry, table.get? name = some entry) ∧ P :=
    fun name => (bind_iff_and hf).trans (and_congr_left' (hlook name))
  rw [bind_iff]
  simp only [textField_eq_ok_iff, hrest]
  constructor
  · rintro ⟨name, hname, ⟨entry, hentry⟩, hp⟩
    exact ⟨⟨name, entry, hname, hentry⟩, hp⟩
  · rintro ⟨⟨name, entry, hname, hentry⟩, hp⟩
    exact ⟨name, hname, ⟨entry, hentry⟩, hp⟩

theorem succeeds_ofKind_iff (type : String) (kind : PredicateKind) :
    Succeeds ((standard g).ofKind members type kind) ↔ KindForm g.catalog members kind := by
  cases kind with
  | member =>
    refine succeeds_entry_iff (fun _ => succeeds_tag_iff) fun pieces => ?_
    exact (bind_iff_of_forall fun bind => of_ok _).trans (succeeds_textField?_iff "bind")
  | key =>
    refine succeeds_entry_iff g.catalog.succeeds_mapping_iff fun table => ?_
    rw [bind_iff_and fun bindKey =>
      (bind_iff_of_forall fun bindValue => of_ok _).trans (succeeds_textField?_iff "bind-val"),
      succeeds_textField?_iff]

theorem succeeds_predicate_iff :
    Succeeds ((standard g).predicate members) ↔ IsSlot g.catalog (.object members) := by
  rw [isSlot_object_iff]
  unfold predicate HasType
  cases findEntry "type" members with
  | none => simp
  | some j =>
    cases j with
    | string type =>
      have hresolve : ∀ kind, (standard g).predicates.resolve type = .ok kind ↔
          Identifier.Written Registry.builtinSpace type ⟨Registry.builtinSpace, kind.name⟩ := by
        intro kind
        rw [Registry.resolve_eq_ok_iff]
        simp only [standard, PredicateKind.get?_builtinPredicates, exists_eq_right]
        rfl
      refine bind_iff.trans ?_
      simp only [hresolve, succeeds_ofKind_iff, Option.some.injEq, Json.string.injEq,
        exists_eq_left']
    | _ => simp

theorem succeeds_resolve_iff (name : String) :
    Succeeds (g.catalog.resolve name) ↔ IsSlot g.catalog (.piece name) := by
  constructor
  · rintro ⟨p, hp⟩
    obtain ⟨hname, hmem⟩ := (g.catalog.resolve_eq_ok_iff name p).1 hp
    exact .piece hname hmem
  · intro h
    cases h with
    | piece hname hmem => exact ⟨_, (g.catalog.resolve_eq_ok_iff name _).2 ⟨hname, hmem⟩⟩

theorem succeeds_slot_iff (item : InputItem) :
    Succeeds ((standard g).slot item) ↔ IsSlot g.catalog item := by
  cases item with
  | piece name => exact (bind_iff_of_forall fun p => of_ok _).trans (succeeds_resolve_iff name)
  | object members => exact succeeds_predicate_iff

/-! ## Patterns -/

theorem eq_of_names? {input : List InputItem} {names : List String} (h : names? input = some names) :
    input = names.map .piece := by
  induction input generalizing names with
  | nil =>
    cases h
    rfl
  | cons item rest ih =>
    cases item with
    | piece name =>
      obtain ⟨names', hrest, rfl⟩ := Option.map_eq_some_iff.1 h
      rw [List.map_cons, ih hrest]
    | object members => cases h

/-- A pattern of names only is compiled in another way, but from the same names. -/
theorem succeeds_matcher_iff (input : List InputItem) :
    Succeeds ((standard g).matcher input) ↔ ∀ item ∈ input, IsSlot g.catalog item := by
  unfold matcher
  split
  · rename_i names hnames
    rw [bind_iff_of_forall fun pieces => of_ok _, mapM_iff, eq_of_names? hnames,
      List.forall_mem_map]
    exact forall₂_congr fun name _ => succeeds_resolve_iff name
  · rw [bind_iff_of_forall fun tests => of_ok _, mapM_iff]
    exact forall₂_congr fun item _ => succeeds_slot_iff item

theorem length_of_matcher {k : Compiler} {input : List InputItem} {m : Matcher}
    (h : k.matcher input = .ok m) : m.length = input.length := by
  unfold matcher at h
  split at h
  · rename_i names hnames
    obtain ⟨pieces, hpieces, h⟩ := exists_of_bind_ok h
    cases h
    rw [eq_of_names? hnames, List.length_map]
    exact (forall₂_of_mapM _ _ _ hpieces).length_eq.symm
  · obtain ⟨tests, htests, h⟩ := exists_of_bind_ok h
    cases h
    exact (forall₂_of_mapM _ _ _ htests).length_eq.symm

end Compiler

/-! ## Rules -/

/-- A link as it is written: a guard and results are there or not. -/
structure LinkDocument.IsLink (c : Catalog) (d : LinkDocument) : Prop where
  input : ∀ item ∈ d.input, IsSlot c item
  guard : ∀ j ∈ d.guard, IsCondition c j
  result : ∀ items ∈ d.result, items.length = d.input.length ∧ ∀ j ∈ items, IsCondition c j

/-- Every link of the rule is one. -/
def RuleDocument.IsRule (c : Catalog) (d : RuleDocument) : Prop := ∀ l ∈ d.links, l.IsLink c

namespace Compiler

open Succeeds

variable {g : Game}

theorem succeeds_expression_iff (j : Json) :
    Succeeds ((standard g).expression j) ↔ IsCondition g.catalog j :=
  Expression.succeeds_compile_iff j

theorem succeeds_guard_iff (guard : Option Json) :
    Succeeds ((standard g).guard guard) ↔ ∀ j ∈ guard, IsCondition g.catalog j := by
  cases guard with
  | none => simp [Compiler.guard]
  | some j =>
    refine (bind_iff_of_forall fun e => of_ok _).trans ?_
    simp [succeeds_expression_iff]

theorem succeeds_results_iff (d : LinkDocument) :
    Succeeds ((standard g).results d) ↔
      ∀ items ∈ d.result, items.length = d.input.length ∧ ∀ j ∈ items, IsCondition g.catalog j := by
  unfold results
  cases d.result with
  | none => simp
  | some items =>
    by_cases hlen : items.length = d.input.length
    · simp [hlen, mapM_iff, succeeds_expression_iff]
    · simp [hlen]

theorem length_of_results {k : Compiler} {d : LinkDocument} {es : List Expression}
    (h : k.results d = .ok es) : es.length = d.input.length := by
  unfold results at h
  split at h
  · cases h
    exact List.length_replicate
  · split at h
    · rename_i hlen
      rw [← hlen]
      exact (forall₂_of_mapM _ _ _ h).length_eq.symm
    · cases h

/-- A pattern and results that are compiled have the length of the input, so they make a link. -/
theorem succeeds_link_iff (d : LinkDocument) :
    Succeeds ((standard g).link d) ↔ d.IsLink g.catalog := by
  have hsplit : Succeeds ((standard g).link d) ↔ Succeeds ((standard g).matcher d.input) ∧
      Succeeds ((standard g).guard d.guard) ∧ Succeeds ((standard g).results d) := by
    constructor
    · intro h
      obtain ⟨m, hm, h⟩ := bind_iff.1 h
      obtain ⟨guard, hguard, h⟩ := bind_iff.1 h
      obtain ⟨es, hes, -⟩ := bind_iff.1 h
      exact ⟨⟨m, hm⟩, ⟨guard, hguard⟩, ⟨es, hes⟩⟩
    · rintro ⟨⟨m, hm⟩, ⟨guard, hguard⟩, ⟨es, hes⟩⟩
      refine bind_iff.2 ⟨m, hm, bind_iff.2 ⟨guard, hguard, bind_iff.2 ⟨es, hes, ?_⟩⟩⟩
      have hlen : es.length = m.length := (length_of_results hes).trans (length_of_matcher hm).symm
      rw [Link.build, dif_pos hlen]
      exact of_ok _
  rw [hsplit, succeeds_matcher_iff, succeeds_guard_iff, succeeds_results_iff]
  constructor
  · rintro ⟨hinput, hguard, hresult⟩
    exact ⟨hinput, hguard, hresult⟩
  · rintro ⟨hinput, hguard, hresult⟩
    exact ⟨hinput, hguard, hresult⟩

theorem succeeds_rule_iff (d : RuleDocument) :
    Succeeds ((standard g).rule d) ↔ d.IsRule g.catalog := by
  refine (bind_iff_and fun first => bind_iff_of_forall fun next => of_ok _).trans ?_
  rw [succeeds_link_iff, mapM_iff, RuleDocument.IsRule, RuleDocument.links, List.forall_mem_cons]
  exact and_congr_right fun _ => forall₂_congr fun l _ => succeeds_link_iff l

end Compiler

/-- **The compilers accept their grammar and nothing else.**  With the functions and predicates of
the library a value is compiled to an expression exactly if it is a condition over the names of the
game, and a rule document to a chain exactly if it is a rule over them; a JSON value is compiled to a
chain exactly if it passes the check of rule documents and the document is such a rule. -/
theorem compiled_iff_grammatical (g : Game) :
    (∀ j, (∃ e, Expression.compile g builtinFunctions j = .ok e) ↔ IsCondition g.catalog j) ∧
    (∀ d, (∃ chain, (Compiler.standard g).rule d = .ok chain) ↔ d.IsRule g.catalog) ∧
    ∀ j, (∃ chain, (Compiler.standard g).ruleOfJson j = .ok chain) ↔
      ∃ d, RuleDocument.check j = .ok d ∧ d.IsRule g.catalog := by
  refine ⟨Expression.succeeds_compile_iff, Compiler.succeeds_rule_iff, fun j => ?_⟩
  unfold Compiler.ruleOfJson
  cases RuleDocument.check j with
  | error problems => simp
  | ok d =>
    simp only [Except.ok.injEq, exists_eq_left']
    exact Compiler.succeeds_rule_iff d

end HexRules
