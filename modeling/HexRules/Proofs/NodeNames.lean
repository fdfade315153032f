import HexRules.Document.Game
import HexRules.Proofs.Computations
import HexRules.Proofs.WrittenNames
import Mathlib.Data.List.Nodup

/-!
# The names in a document

The names of a checked document differ as texts, and still two of them can stand for one piece: a
piece of the game's own namespace is written bare or with the namespace in front.  No other two texts
stand for one piece, so a catalog has as many pieces as there are names, less one for every name that
is written in both ways.

    text ≠ text' → ((∃ i, Written space text i ∧ Written space text' i) ↔
      text' = space ++ ":" ++ text ∨ text = space ++ ":" ++ text')       (exists_written_both_iff)
    check j = .ok doc → the pieces are as many as (unrepeated doc.id doc.nodes)
                                                                         (pieces_of_checked_names)
-/

namespace HexRules

namespace Identifier

/-! ## Spellings -/

theorem Written.unique {space text : String} {i i' : Identifier} (h : Written space text i)
    (h' : Written space text i') : i = i' :=
  Option.some.inj ((parse?_of_written h).symm.trans (parse?_of_written h'))

theorem Written.spelling {space text : String} {i : Identifier} (h : Written space text i) :
    text = i.text ∨ i = ⟨space, text⟩ := by
  cases h with
  | bare => exact .inr rfl
  | qualified => exact .inl rfl

/-- Of two spellings one is bare and the other one has the namespace in front. -/
theorem Written.spellings {space text text' : String} {i : Identifier} (h : Written space text i)
    (h' : Written space text' i) (hne : text ≠ text') :
    i.space = space ∧ (text = i.name ∧ text' = i.text ∨ text = i.text ∧ text' = i.name) := by
  rcases h.spelling with hlong | rfl
  · rcases h'.spelling with hlong' | rfl
    · exact absurd (hlong.trans hlong'.symm) hne
    · exact ⟨rfl, .inr ⟨hlong, rfl⟩⟩
  · rcases h'.spelling with hlong' | hshort'
    · exact ⟨rfl, .inl ⟨rfl, hlong'⟩⟩
    · exact absurd (congrArg Identifier.name hshort') hne

theorem exists_written {text : String} (h : text.toList.count separator < 2) (space : String) :
    ∃ i, Written space text i := by
  rcases written_cases text space with ⟨-, hi⟩ | ⟨hcount, -⟩
  · exact hi
  · omega

theorem count_qualified (space name : String) :
    (space ++ ":" ++ name).toList.count separator =
      space.toList.count separator + name.toList.count separator + 1 := by
  have htext : (space ++ ":" ++ name).toList = space.toList ++ separator :: name.toList :=
    toList_text ⟨space, name⟩
  rw [htext, List.count_append, List.count_cons_self]
  omega

/-- Where the longer spelling is a name at all, the shorter one is, and they name the same. -/
theorem written_both {space name : String}
    (h : (space ++ ":" ++ name).toList.count separator < 2) :
    Written space name ⟨space, name⟩ ∧ Written space (space ++ ":" ++ name) ⟨space, name⟩ := by
  rw [count_qualified] at h
  have hspace : separator ∉ space.toList := List.count_eq_zero.1 (by omega)
  have hname : separator ∉ name.toList := List.count_eq_zero.1 (by omega)
  exact ⟨.bare hname, .qualified (i := ⟨space, name⟩) hspace hname⟩

theorem exists_written_both_iff {space text text' : String} (hne : text ≠ text')
    (htext : text.toList.count separator < 2) (htext' : text'.toList.count separator < 2) :
    (∃ i, Written space text i ∧ Written space text' i) ↔
      text' = space ++ ":" ++ text ∨ text = space ++ ":" ++ text' := by
  constructor
  · rintro ⟨i, h, h'⟩
    obtain ⟨rfl, ⟨rfl, rfl⟩ | ⟨rfl, rfl⟩⟩ := h.spellings h' hne
    · exact .inl rfl
    · exact .inr rfl
  · rintro (rfl | rfl)
    · exact ⟨_, written_both htext'⟩
    · exact ⟨_, (written_both htext).symm⟩

/-- What a text names; what names nothing counts as bare. -/
def named (space text : String) : Identifier := (parse? text space).getD ⟨space, text⟩

theorem named_eq {space text : String} {i : Identifier} (h : Written space text i) :
    named space text = i := by
  rw [named, parse?_of_written h, Option.getD_some]

end Identifier

open Identifier

/-! ## Registering names -/

namespace Catalog

/-- With one more piece, unless it is there. -/
def register (c : Catalog) (i : Piece) : Catalog :=
  if i ∈ c.pieces then c else { c with pieces := c.pieces ++ [i] }

theorem addPiece_eq {c : Catalog} {name : String} {i : Piece} (h : Written c.id name i) :
    c.addPiece name = .ok (c.register i) := by
  simp only [addPiece, identify, parse?_of_written h]
  rfl

theorem id_register (c : Catalog) (i : Piece) : (c.register i).id = c.id := by
  unfold register
  split <;> rfl

theorem mem_register_iff (c : Catalog) (i p : Piece) :
    p ∈ (c.register i).pieces ↔ p ∈ c.pieces ∨ p = i := by
  unfold register
  split
  · rename_i hi
    exact (or_iff_left_of_imp fun hp => hp ▸ hi).symm
  · rw [List.mem_append, List.mem_singleton]

theorem nodup_register {c : Catalog} (h : c.pieces.Nodup) (i : Piece) :
    (c.register i).pieces.Nodup := by
  unfold register
  split
  · exact h
  · rename_i hi
    exact List.concat_eq_append ▸ h.concat hi

/-- All names are registered, and what they name is all that is added. -/
theorem exists_addPieces (names : List String) (c : Catalog)
    (hnames : ∀ name ∈ names, ∃ i, Written c.id name i) (hnodup : c.pieces.Nodup) :
    ∃ c', names.foldlM addPiece c = .ok c' ∧ c'.pieces.Nodup ∧
      ∀ p, p ∈ c'.pieces ↔ p ∈ c.pieces ∨ ∃ name ∈ names, Written c.id name p := by
  induction names generalizing c with
  | nil => exact ⟨c, rfl, hnodup, fun p => by simp⟩
  | cons name rest ih =>
    obtain ⟨⟨i, hi⟩, hrest⟩ := List.forall_mem_cons.1 hnames
    rw [← id_register c i] at hrest
    obtain ⟨c', hc', hnodup', hmem⟩ := ih (c.register i) hrest (nodup_register hnodup i)
    refine ⟨c', ?_, hnodup', fun p => ?_⟩
    · rw [List.foldlM_cons, addPiece_eq hi]
      exact hc'
    · have hname : Written c.id name p ↔ p = i := ⟨fun h => h.unique hi, fun h => h ▸ hi⟩
      rw [hmem, mem_register_iff, id_register, List.exists_mem_cons_iff, hname, or_assoc]

theorem yields_addPieces (id : String) (names : List String) :
    Yields (fun c => c.id = id) (names.foldlM addPiece (empty id)) := by
  refine Ends.foldlM rfl fun c hc name _ => (yields_true _).bind fun i _ => ?_
  split <;> exact hc

/-- Tags and mappings are added without a change to the id and the pieces. -/
theorem exists_of_build {id : String} {names : List String} {tags : List (String × List String)}
    {mappings : List (String × List (String × String))} {c' : Catalog}
    (h : build id names tags mappings = .ok c') :
    ∃ c, names.foldlM addPiece (empty id) = .ok c ∧ c'.id = id ∧ c'.pieces = c.pieces := by
  obtain ⟨c, hc, h⟩ := exists_of_bind_ok h
  obtain ⟨c₁, hc₁, h⟩ := exists_of_bind_ok h
  have htags : Yields (fun d => d.id = c.id ∧ d.pieces = c.pieces) (tags.foldlM addTag c) :=
    Ends.foldlM ⟨rfl, rfl⟩ fun d hd entry _ => (yields_true _).bind fun members _ => hd
  have hmappings : Yields (fun d => d.id = c.id ∧ d.pieces = c.pieces)
      (mappings.foldlM addMapping c₁) :=
    Ends.foldlM (htags.of_ok hc₁) fun d hd entry _ => (yields_true _).bind fun pairs _ => hd
  obtain ⟨hid, hpieces⟩ := hmappings.of_ok h
  exact ⟨c, hc, hid.trans ((yields_addPieces id names).of_ok hc), hpieces⟩

end Catalog

/-! ## Names written in both ways -/

/-- The names that are not also listed with the namespace in front. -/
def unrepeated (id : String) (names : List String) : List String :=
  names.filter fun name => decide (id ++ ":" ++ name ∉ names)

section Unrepeated

variable {id : String} {names : List String}

theorem mem_unrepeated_iff {name : String} :
    name ∈ unrepeated id names ↔ name ∈ names ∧ id ++ ":" ++ name ∉ names := by
  rw [unrepeated, List.mem_filter, decide_eq_true_iff]

variable (hcount : ∀ name ∈ names, name.toList.count separator < 2)

include hcount

/-- Each of them stands for a piece of its own. -/
theorem nodup_map_named (hnodup : names.Nodup) :
    ((unrepeated id names).map (named id)).Nodup := by
  refine (hnodup.filter _).map_on fun x hx y hy hxy => ?_
  obtain ⟨hx, hxlong⟩ := mem_unrepeated_iff.1 hx
  obtain ⟨hy, hylong⟩ := mem_unrepeated_iff.1 hy
  obtain ⟨i, hi⟩ := exists_written (hcount x hx) id
  obtain ⟨i', hi'⟩ := exists_written (hcount y hy) id
  rw [named_eq hi, named_eq hi'] at hxy
  by_contra hne
  have hboth : ∃ i, Written id x i ∧ Written id y i := ⟨i, hi, hxy ▸ hi'⟩
  rcases (exists_written_both_iff hne (hcount x hx) (hcount y hy)).1 hboth with rfl | rfl
  · exact hxlong hy
  · exact hylong hx

/-- Together they stand for all that is named. -/
theorem mem_map_named_iff (p : Piece) :
    p ∈ (unrepeated id names).map (named id) ↔ ∃ name ∈ names, Written id name p := by
  rw [List.mem_map]
  constructor
  · rintro ⟨name, hname, rfl⟩
    obtain ⟨hname, -⟩ := mem_unrepeated_iff.1 hname
    obtain ⟨i, hi⟩ := exists_written (hcount name hname) id
    exact ⟨name, hname, named_eq hi ▸ hi⟩
  · rintro ⟨name, hname, hp⟩
    by_cases hlong : id ++ ":" ++ name ∈ names
    · -- With the namespace in front twice it would have too many separators.
      have hlonger : id ++ ":" ++ (id ++ ":" ++ name) ∉ names := by
        intro hmem
        have hlt := hcount _ hmem
        rw [count_qualified, count_qualified] at hlt
        omega
      have hboth := written_both (hcount _ hlong)
      refine ⟨_, mem_unrepeated_iff.2 ⟨hlong, hlonger⟩, ?_⟩
      rw [named_eq hboth.2, hp.unique hboth.1]
    · exact ⟨name, mem_unrepeated_iff.2 ⟨hname, hlong⟩, named_eq hp⟩

end Unrepeated

/-! ## Checked documents -/

theorem GameDocument.checkNames_eq_ok_iff {d doc : GameDocument} :
    d.checkNames = .ok doc ↔ separator ∉ d.id.toList ∧ d.nodes.Nodup ∧ d = doc := by
  unfold checkNames
  split
  · rename_i hid
    refine ⟨fun h => ?_, fun h => absurd hid h.1⟩
    cases h
  · rename_i hid
    split
    · rename_i hrepeated
      refine ⟨fun h => ?_, fun h => ?_⟩
      · cases h
      · simp [h.2.1] at hrepeated
    · rename_i hnodup
      rw [Except.ok.injEq]
      exact ⟨fun h => ⟨hid, by simpa using hnodup, h⟩, fun h => h.2.2⟩

/-- The id of a checked document holds no separator, and its names differ. -/
theorem GameDocument.names_of_check {j : Json} {doc : GameDocument} (h : check j = .ok doc) :
    separator ∉ doc.id.toList ∧ doc.nodes.Nodup := by
  unfold check at h
  split at h
  · split at h
    · obtain ⟨hid, hnodup, rfl⟩ := checkNames_eq_ok_iff.1 h
      exact ⟨hid, hnodup⟩
    · cases h
  · cases h

theorem GameDocument.nodup_of_check {j : Json} {doc : GameDocument} (h : check j = .ok doc) :
    doc.nodes.Nodup :=
  (names_of_check h).2

/-- **The pieces of a checked game.**  Names with at most one separator are all registered.  There
are as many pieces as names that are not also written with the id of the game in front; so there is
one piece for each name exactly if no name is, and otherwise two names of the document stand for one
piece. -/
theorem pieces_of_checked_names {j : Json} {doc : GameDocument}
    (hcheck : GameDocument.check j = .ok doc)
    (hnames : ∀ name ∈ doc.nodes, name.toList.count separator < 2) :
    ∃ c, doc.nodes.foldlM Catalog.addPiece (Catalog.empty doc.id) = .ok c ∧
      (∀ c', Catalog.build doc.id doc.nodes doc.tags doc.mappings = .ok c' →
        c'.pieces = c.pieces) ∧
      c.pieces.Nodup ∧ (∀ p, p ∈ c.pieces ↔ ∃ name ∈ doc.nodes, Written doc.id name p) ∧
      c.pieces.length = (unrepeated doc.id doc.nodes).length ∧
      (c.pieces.length = doc.nodes.length ↔
        ∀ name ∈ doc.nodes, doc.id ++ ":" ++ name ∉ doc.nodes) ∧
      ∀ name ∈ doc.nodes, ∀ name' ∈ doc.nodes, name ≠ name' →
        ((∃ p, Written doc.id name p ∧ Written doc.id name' p) ↔
          name' = doc.id ++ ":" ++ name ∨ name = doc.id ++ ":" ++ name') := by
  obtain ⟨c, hc, hnodup, hmem⟩ := Catalog.exists_addPieces doc.nodes (Catalog.empty doc.id)
    (fun name hname => exists_written (hnames name hname) doc.id) List.nodup_nil
  replace hmem : ∀ p, p ∈ c.pieces ↔ ∃ name ∈ doc.nodes, Written doc.id name p := fun p =>
    (hmem p).trans (or_iff_right List.not_mem_nil)
  have hlength : c.pieces.length = (unrepeated doc.id doc.nodes).length := by
    have hunrepeated : ((unrepeated doc.id doc.nodes).map (named doc.id)).Nodup :=
      nodup_map_named hnames (GameDocument.nodup_of_check hcheck)
    have hperm := (List.perm_ext_iff_of_nodup hnodup hunrepeated).2 fun p =>
      (hmem p).trans (mem_map_named_iff hnames p).symm
    rw [hperm.length_eq, List.length_map]
  refine ⟨c, hc, fun c' hc' => ?_, hnodup, hmem, hlength, ?_, fun name hname name' hname' hne =>
    exists_written_both_iff hne (hnames name hname) (hnames name' hname')⟩
  · obtain ⟨c₁, hc₁, -, hpieces⟩ := Catalog.exists_of_build hc'
    rw [hc] at hc₁
    rw [hpieces, Except.ok.inj hc₁]
  · rw [hlength, unrepeated, List.length_filter_eq_length_iff]
    simp only [decide_eq_true_iff]

namespace Relay

/-- A game with these names and this bank, and nothing else. -/
def written (names : List String) (bank : List (String × Nat)) : Json :=
  .object [("id", .string "relay"), ("nodes", .array (names.map .string)),
    ("bank", .object (bank.map fun e => (e.1, .number (.int e.2))))]

def document (names : List String) (bank : List (String × Nat)) : GameDocument where
  id := "relay"
  nodes := names
  tags := []
  mappings := []
  select := .bool true
  rules := []
  radius := GameDocument.defaultRadius
  center := none
  bank := bank

/-- The red piece of another game is another piece. -/
theorem three_names_apart :
    GameDocument.check (written ["red", "old:red", "relay:blue"] []) =
        .ok (document ["red", "old:red", "relay:blue"] []) ∧
      (∀ name ∈ ["red", "old:red", "relay:blue"], name.toList.count separator < 2) ∧
      ∃ c, ["red", "old:red", "relay:blue"].foldlM Catalog.addPiece (Catalog.empty "relay") =
          .ok c ∧ c.pieces.length = 3 := by
  have hcheck : GameDocument.check (written ["red", "old:red", "relay:blue"] []) =
      .ok (document ["red", "old:red", "relay:blue"] []) := by rfl
  have hcount : ∀ name ∈ ["red", "old:red", "relay:blue"], name.toList.count separator < 2 := by
    decide +kernel
  obtain ⟨c, hc, -, -, -, -, hiff, -⟩ := pieces_of_checked_names hcheck hcount
  exact ⟨hcheck, hcount, c, hc, hiff.2 (by decide +kernel)⟩

/-- The document is sound and its names differ, but both of them name the red piece. -/
theorem red_named_twice :
    GameDocument.check (written ["red", "relay:red"] []) = .ok (document ["red", "relay:red"] []) ∧
      (∀ name ∈ ["red", "relay:red"], name.toList.count separator < 2) ∧
      ∃ c, Catalog.build "relay" ["red", "relay:red"] [] [] = .ok c ∧
        c.pieces = [⟨"relay", "red"⟩] ∧ c.pieces.length ≠ ["red", "relay:red"].length := by
  refine ⟨by rfl, by decide +kernel,
    ⟨"relay", [⟨"relay", "red"⟩], Table.empty, Table.empty⟩, by rfl, rfl, ?_⟩
  decide

end Relay

end HexRules
