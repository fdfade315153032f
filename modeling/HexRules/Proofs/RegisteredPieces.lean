import HexRules.Definition
import HexRules.Proofs.CompiledParts
import HexRules.Proofs.Yields

/-!
# Registered pieces

A game resolves its names while it is compiled, so whatever it is compiled to holds pieces of its
catalog only: tags and mappings, conditions and results, patterns, and what is dealt.  That does not
depend on which functions and predicates are registered; an alias is compiled like what it stands
for.

    Yields Catalog.Closed (Catalog.build id names tags mappings)         (yields_build)
    g.catalog.Closed → Yields (Expression.Within g.catalog.pieces) (compile g functions j)
                                                                         (yields_compile)
    k.game.catalog.Closed → Yields (Chain.Within k.game.catalog.pieces) (k.rule d)
                                                                         (yields_rule)
    Yields Definition.Registered (compileOn functions predicates b doc)  (yields_compileOn)
-/

namespace HexRules

/-! ## Catalogs -/

namespace Catalog

variable {c : Catalog}

/-- Tags and mappings are over pieces of the catalog. -/
structure Closed (c : Catalog) : Prop where
  tags : ∀ tag ∈ c.tags.entries, tag.2 ⊆ c.pieces
  mappings : ∀ mapping ∈ c.mappings.entries, ∀ e ∈ mapping.2.entries,
    e.1 ∈ c.pieces ∧ e.2 ∈ c.pieces

theorem closed_empty (id : String) : (empty id).Closed :=
  ⟨fun _ h => (nomatch h), fun _ h => (nomatch h)⟩

theorem yields_resolve (c : Catalog) (text : String) : Yields (· ∈ c.pieces) (c.resolve text) :=
  Yields.of_forall fun _ h => mem_of_resolve h

theorem yields_resolvePair (c : Catalog) (pair : String × String) :
    Yields (fun e => e.1 ∈ c.pieces ∧ e.2 ∈ c.pieces) (c.resolvePair pair) := by
  refine (c.yields_resolve pair.1).bind fun key hkey => ?_
  refine (c.yields_resolve pair.2).bind fun value hvalue => ?_
  exact ⟨hkey, hvalue⟩

/-- Another piece leaves the tags and mappings as they are. -/
theorem Closed.addPiece (h : c.Closed) (name : String) : Yields Closed (c.addPiece name) := by
  refine (yields_true _).bind fun i _ => ?_
  split
  · exact h
  · exact ⟨fun tag htag p hp => List.mem_append_left _ (h.tags tag htag hp),
      fun mapping hmapping e he =>
        (h.mappings mapping hmapping e he).imp (List.mem_append_left _) (List.mem_append_left _)⟩

theorem Closed.addTag (h : c.Closed) (entry : String × List String) :
    Yields Closed (c.addTag entry) := by
  refine (Ends.mapM fun text _ => c.yields_resolve text).bind fun members hmembers => ?_
  refine ⟨fun tag htag p hp => ?_, h.mappings⟩
  rcases mem_of_mem_putEntry htag with rfl | htag
  · exact hmembers p (List.mem_eraseDups.1 hp)
  · exact h.tags tag htag hp

theorem Closed.addMapping (h : c.Closed) (entry : String × List (String × String)) :
    Yields Closed (c.addMapping entry) := by
  refine (Ends.mapM fun pair _ => c.yields_resolvePair pair).bind fun pairs hpairs => ?_
  refine ⟨h.tags, fun mapping hmapping e he => ?_⟩
  rcases mem_of_mem_putEntry hmapping with rfl | hmapping
  · exact hpairs e (Table.mem_of_mem_ofList he)
  · exact h.mappings mapping hmapping e he

theorem yields_build (id : String) (names : List String) (tags : List (String × List String))
    (mappings : List (String × List (String × String))) :
    Yields Closed (build id names tags mappings) := by
  refine (Ends.foldlM (closed_empty id) fun c h name _ => h.addPiece name).bind fun c hc => ?_
  refine (Ends.foldlM hc fun c h entry _ => h.addTag entry).bind fun c hc => ?_
  exact Ends.foldlM hc fun c h entry _ => h.addMapping entry

theorem yields_mapping (h : c.Closed) (name : String) :
    Yields (fun table => table.entries.map Prod.snd ⊆ c.pieces) (c.mapping name) := by
  unfold mapping
  split
  · rename_i table htable
    intro p hp
    obtain ⟨e, he, rfl⟩ := List.mem_map.1 hp
    exact (h.mappings _ ((c.mappings.get?_eq_some_iff name table).1 htable) e he).2
  · trivial

end Catalog

/-! ## Expressions -/

namespace Expression

/-- The expression holds pieces of `ps` only. -/
abbrev Within (ps : List Piece) (e : Expression) : Prop := e.pieces ⊆ ps

theorem piecesOf_subset_iff {es : List Expression} {ps : List Piece} :
    piecesOf es ⊆ ps ↔ ∀ e ∈ es, e.Within ps := by
  induction es with
  | nil => exact iff_of_true (List.nil_subset ps) (List.forall_mem_nil _)
  | cons e rest ih => rw [piecesOf, List.append_subset, ih, List.forall_mem_cons]

variable {g : Game} {functions : Registry FunctionBuilder}
  {expand : Identifier → Json → Except CompileError Expression}

theorem yields_ofText (g : Game) (text : String) :
    Yields (Within g.catalog.pieces) (ofText g text) := by
  unfold ofText
  split
  · exact List.nil_subset _
  · exact (g.catalog.yields_resolve text).bind fun p hp =>
      List.cons_subset.2 ⟨hp, List.nil_subset _⟩

/-- A table that is looked up is one of the catalog. -/
theorem inherited_within (hclosed : g.catalog.Closed) : Inherited g (Within g.catalog.pieces) where
  array_iff _ := piecesOf_subset_iff
  branch _ _ _ hcond htrue hfalse :=
    List.append_subset.2 ⟨hcond, List.append_subset.2 ⟨htrue, hfalse⟩⟩
  all _ := piecesOf_subset_iff.2
  any _ := piecesOf_subset_iff.2
  equal _ := piecesOf_subset_iff.2
  openRun _ h := h
  lookup name _ _ htable h :=
    List.append_subset.2 ⟨h, (Catalog.yields_mapping hclosed name).of_ok htable⟩
  onBoard _ h := h

theorem compositional_within (hclosed : g.catalog.Closed) :
    Compositional g fun _ e => e.Within g.catalog.pieces where
  null := List.nil_subset _
  bool _ := List.nil_subset _
  number _ := List.nil_subset _
  text := yields_ofText g
  item _ _ _ _ h := h
  member _ _ _ _ h := h
  inherited _ := inherited_within hclosed

theorem yields_ofJson (hclosed : g.catalog.Closed)
    (hexpand : ∀ i j, Yields (Within g.catalog.pieces) (expand i j)) (j : Json) :
    Yields (Within g.catalog.pieces) (ofJson g functions expand j) :=
  (compositional_within hclosed).yields_ofJson (fun i x _ _ => hexpand i x) j

theorem yields_compileTo (hclosed : g.catalog.Closed) (depth : Nat) (j : Json) :
    Yields (Within g.catalog.pieces) (compileTo g functions depth j) := by
  induction depth generalizing j with
  | zero =>
    rw [compileTo]
    refine yields_ofJson hclosed (fun i e => ?_) j
    trivial
  | succ depth ih =>
    rw [compileTo]
    exact yields_ofJson hclosed (fun _ e => ih e) j

theorem yields_compile (hclosed : g.catalog.Closed) (j : Json) :
    Yields (Within g.catalog.pieces) (compile g functions j) :=
  yields_compileTo hclosed functions.size j

end Expression

/-! ## Rules -/

/-- The pieces that a predicate may bind beside the one that it accepts. -/
def Predicate.partners : Predicate → List Piece
  | literal _ => []
  | member _ _ => []
  | key table _ _ => table.entries.map Prod.snd

/-- What a link binds of itself and what it puts on the board of itself are among some pieces. -/
structure Link.Within (ps : List Piece) (l : Link) : Prop where
  partners : ∀ q ∈ l.matcher.slots, q.partners ⊆ ps
  results : ∀ e ∈ l.results, e.Within ps

def Chain.Within (ps : List Piece) (c : Chain) : Prop := ∀ l ∈ c.links, l.Within ps

namespace Compiler

variable {k : Compiler}

theorem yields_predicate (h : k.game.catalog.Closed) (members : List (String × Json)) :
    Yields (fun q => q.partners ⊆ k.game.catalog.pieces) (k.predicate members) := by
  unfold predicate
  split
  · refine (yields_true _).bind fun kind _ => ?_
    cases kind with
    | member =>
      refine (yields_true _).bind fun tag _ => (yields_true _).bind fun pieces _ => ?_
      exact (yields_true _).bind fun bind _ => List.nil_subset _
    | key =>
      refine (yields_true _).bind fun name _ => ?_
      refine (Catalog.yields_mapping h name).bind fun table htable => ?_
      exact (yields_true _).bind fun bindKey _ => (yields_true _).bind fun bindValue _ => htable
  · trivial
  · trivial

theorem yields_slot (h : k.game.catalog.Closed) (item : InputItem) :
    Yields (fun q => q.partners ⊆ k.game.catalog.pieces) (k.slot item) := by
  cases item with
  | piece name => exact (yields_true _).bind fun p _ => List.nil_subset _
  | object members => exact yields_predicate h members

theorem yields_matcher (h : k.game.catalog.Closed) (input : List InputItem) :
    Yields (fun m => ∀ q ∈ m.slots, q.partners ⊆ k.game.catalog.pieces) (k.matcher input) := by
  unfold matcher
  split
  · refine (yields_true _).bind fun pieces _ q hq => ?_
    obtain ⟨p, -, rfl⟩ := List.mem_map.1 hq
    exact List.nil_subset _
  · exact (Ends.mapM fun item _ => yields_slot h item).bind fun tests htests => htests

theorem yields_results (h : k.game.catalog.Closed) (d : LinkDocument) :
    Yields (fun es => ∀ e ∈ es, e.Within k.game.catalog.pieces) (k.results d) := by
  unfold results
  split
  · intro e he
    rw [List.eq_of_mem_replicate he]
    exact List.nil_subset _
  · split
    · exact Ends.mapM fun j _ => Expression.yields_compile h j
    · trivial

theorem yields_link (h : k.game.catalog.Closed) (d : LinkDocument) :
    Yields (Link.Within k.game.catalog.pieces) (k.link d) := by
  refine (yields_matcher h d.input).bind fun m hm => (yields_true _).bind fun guard _ => ?_
  refine (yields_results h d).bind fun es hes => ?_
  unfold Link.build
  split
  · exact ⟨hm, hes⟩
  · trivial

theorem yields_rule (h : k.game.catalog.Closed) (d : RuleDocument) :
    Yields (Chain.Within k.game.catalog.pieces) (k.rule d) := by
  refine (yields_link h d.first).bind fun first hfirst => ?_
  refine (Ends.mapM fun l _ => yields_link h l).bind fun next hnext => ?_
  exact List.forall_mem_cons.2 ⟨hfirst, hnext⟩

end Compiler

/-! ## Games -/

namespace Definition

/-- All that a game names are pieces of its catalog. -/
structure Registered (d : Definition) : Prop where
  catalog : d.game.catalog.Closed
  rules : ∀ c ∈ d.rules.rules, c.Within d.game.catalog.pieces
  select : d.select.Within d.game.catalog.pieces
  center : ∀ p ∈ d.center, p ∈ d.game.catalog.pieces
  bank : d.pieceBank ⊆ d.game.catalog.pieces

theorem pieceBank_subset {d : Definition} {ps : List Piece}
    (h : ∀ e ∈ d.bank.entries, e.1 ∈ ps) : d.pieceBank ⊆ ps := by
  intro p hp
  obtain ⟨e, he, hp⟩ := List.mem_flatMap.1 hp
  rw [List.eq_of_mem_replicate hp]
  exact h e (List.mem_mergeSort.1 he)

theorem yields_center (catalog : Catalog) (center : Option String) :
    Yields (fun q => ∀ p ∈ q, p ∈ catalog.pieces) (center.mapM catalog.resolve) := by
  cases center with
  | none => exact fun _ h => nomatch h
  | some name =>
    refine (catalog.yields_resolve name).bind fun p hp p' hp' => ?_
    rw [← Option.some.inj hp']
    exact hp

theorem yields_compileOn (functions : Registry FunctionBuilder)
    (predicates : Registry PredicateKind) (b : Board Piece) (doc : GameDocument) :
    Yields Registered (compileOn functions predicates b doc) := by
  refine (Catalog.yields_build _ _ _ _).bind fun catalog hcatalog => ?_
  have hgame : (⟨catalog, b⟩ : Game).catalog.Closed := hcatalog
  have hrules : Yields (fun t => ∀ c ∈ t.rules, c.Within catalog.pieces)
      ((⟨⟨catalog, b⟩, functions, predicates⟩ : Compiler).ruleSet doc.rules) :=
    (Ends.mapM fun rule _ => Compiler.yields_rule hgame rule).bind fun rules h => h
  refine hrules.bind fun rules hrules => ?_
  refine (Expression.yields_compile hgame doc.select).bind fun select hselect => ?_
  refine (yields_center catalog doc.center).bind fun center hcenter => ?_
  have hentries : Yields (fun bank => ∀ e ∈ bank, e.1 ∈ catalog.pieces)
      (doc.bank.mapM (bankEntry ⟨catalog, b⟩)) :=
    Ends.mapM fun e _ => (catalog.yields_resolve e.1).bind fun p hp => hp
  refine hentries.bind fun bank hbank => ?_
  exact ⟨hcatalog, hrules, hselect, hcenter,
    pieceBank_subset fun e he => hbank e (Table.mem_of_mem_ofList he)⟩

end Definition

end HexRules
