import HexRules.Proofs.NodeNames

/-!
# Printed names

A piece is printed with its namespace in front.  The text is read back as the same piece if the
separator between the two parts is the only one, and no part of a name that has been read holds one;
so only the namespace of the reader matters, which a bare name takes over unread.

    Written space i.text i ↔ i.Plain                                     (written_text_iff)
    i.Plain, i'.Plain, i.text = i'.text → i = i'                         (Plain.eq_of_text)
    build id … = .ok c, p ∈ c.pieces → (c.resolve p.text = .ok p ↔ separator ∉ p.space.toList)
                                                                         (resolve_text_iff)
    build id … = .ok c, separator ∉ id.toList → pieces are printed apart and read back
                                                                  (printed_pieces_read_back)
-/

namespace HexRules

namespace Identifier

/-- Neither part holds a separator. -/
structure Plain (i : Identifier) : Prop where
  space : separator ∉ i.space.toList
  name : separator ∉ i.name.toList

/-- What is printed holds the separators of both parts and one more. -/
theorem count_text (i : Identifier) :
    i.text.toList.count separator =
      i.space.toList.count separator + i.name.toList.count separator + 1 :=
  count_qualified i.space i.name

/-- To every reader the printed text of a plain identifier names it, and that of another one names
something else or nothing. -/
theorem written_text_iff (space : String) (i : Identifier) : Written space i.text i ↔ i.Plain := by
  constructor
  · intro h
    have hcount : ¬ 2 ≤ i.text.toList.count separator := by
      rw [← parse?_eq_none_iff i.text space, parse?_of_written h]
      exact Option.some_ne_none i
    rw [count_text] at hcount
    exact ⟨List.count_eq_zero.1 (by omega), List.count_eq_zero.1 (by omega)⟩
  · intro h
    exact .qualified h.space h.name

/-- Plain identifiers are told apart by what is printed. -/
theorem Plain.eq_of_text {i i' : Identifier} (h : i.Plain) (h' : i'.Plain)
    (htext : i.text = i'.text) : i = i' := by
  have hi : Written i.space i.text i := (written_text_iff i.space i).2 h
  have hi' : Written i.space i'.text i' := (written_text_iff i.space i').2 h'
  rw [htext] at hi
  exact hi.unique hi'

/-- The name that has been read is what stands behind the separator or the whole text, so it holds
no separator.  The namespace can hold one only if it is that of the reader. -/
theorem Written.plain_iff {space text : String} {i : Identifier} (h : Written space text i) :
    i.Plain ↔ separator ∉ i.space.toList := by
  refine ⟨Plain.space, fun hspace => ⟨hspace, ?_⟩⟩
  cases h with
  | bare hname => exact hname
  | qualified _ hname => exact hname

theorem Written.plain {space text : String} {i : Identifier} (h : Written space text i)
    (hspace : separator ∉ space.toList) : i.Plain := by
  rw [h.plain_iff]
  cases h with
  | bare _ => exact hspace
  | qualified hspace' _ => exact hspace'

end Identifier

open Identifier

namespace Catalog

variable {id : String} {names : List String} {tags : List (String × List String)}
  {mappings : List (String × List (String × String))} {c : Catalog}

theorem yields_identify (id text : String) :
    Yields (fun i => Written id text i) (identify id text) := by
  unfold identify
  cases hparse : parse? text id with
  | none => trivial
  | some i => exact (parse?_eq_some_iff text id i).1 hparse

/-- Whatever the names are, a catalog that is built from them holds only what they name. -/
theorem written_of_build (h : build id names tags mappings = .ok c) :
    c.id = id ∧ ∀ p ∈ c.pieces, ∃ name, Written id name p := by
  obtain ⟨named, hnamed, hid, hpieces⟩ := exists_of_build h
  have hwritten : Yields (fun d => d.id = id ∧ ∀ p ∈ d.pieces, ∃ name, Written id name p)
      (names.foldlM addPiece (empty id)) := by
    refine Ends.foldlM ⟨rfl, fun p hp => absurd hp List.not_mem_nil⟩ fun d hd name _ => ?_
    refine (yields_identify d.id name).bind fun i hi => ?_
    show (d.register i).id = id ∧ ∀ p ∈ (d.register i).pieces, ∃ name, Written id name p
    obtain ⟨hid, hpieces⟩ := hd
    refine ⟨(id_register d i).trans hid, fun p hp => ?_⟩
    rcases (mem_register_iff d i p).1 hp with hp | rfl
    · exact hpieces p hp
    · exact ⟨name, hid ▸ hi⟩
  refine ⟨hid, ?_⟩
  rw [hpieces]
  exact (hwritten.of_ok hnamed).2

/-- A registered piece is read back exactly if its namespace holds no separator. -/
theorem resolve_text_iff (h : build id names tags mappings = .ok c) {p : Piece}
    (hp : p ∈ c.pieces) : c.resolve p.text = .ok p ↔ separator ∉ p.space.toList := by
  obtain ⟨name, hname⟩ := (written_of_build h).2 p hp
  rw [c.resolve_eq_ok_iff, written_text_iff, hname.plain_iff, and_iff_left hp]

end Catalog

/-- **Printed pieces are read back.**  Where the id of a game holds no separator, as that of a checked
document never does, each of its pieces resolves from what is printed for it, and no two of its pieces
are printed alike, whatever names it was built from.  A text is refused exactly if it holds two
separators or more. -/
theorem printed_pieces_read_back {id : String} {names : List String}
    {tags : List (String × List String)} {mappings : List (String × List (String × String))}
    {c : Catalog} (h : Catalog.build id names tags mappings = .ok c)
    (hid : separator ∉ id.toList) :
    (∀ p ∈ c.pieces, c.resolve p.text = .ok p) ∧
      (∀ p ∈ c.pieces, ∀ p' ∈ c.pieces, p ≠ p' → p.text ≠ p'.text) ∧
      (∀ text space, parse? text space = none ↔ 2 ≤ text.toList.count separator) ∧
      ∀ j doc, GameDocument.check j = .ok doc → separator ∉ doc.id.toList := by
  have hplain : ∀ p ∈ c.pieces, p.Plain := by
    intro p hp
    obtain ⟨name, hname⟩ := (Catalog.written_of_build h).2 p hp
    exact hname.plain hid
  refine ⟨?_, ?_, fun text space => parse?_eq_none_iff text space, ?_⟩
  · intro p hp
    exact (Catalog.resolve_text_iff h hp).2 (hplain p hp).space
  · intro p hp p' hp' hne htext
    exact hne ((hplain p hp).eq_of_text (hplain p' hp') htext)
  · intro j doc hcheck
    exact (GameDocument.names_of_check hcheck).1

namespace Relay

/-- Bare and qualified names, empty parts among them, and one piece named twice. -/
def oddNames : List String := ["red", "old:red", "", ":", "old:", "relay:red"]

theorem odd_names_read_back : ∃ c, Catalog.build "relay" oddNames [] [] = .ok c ∧
    separator ∉ "relay".toList ∧
    c.pieces = [⟨"relay", "red"⟩, ⟨"old", "red"⟩, ⟨"relay", ""⟩, ⟨"", ""⟩, ⟨"old", ""⟩] ∧
    c.resolve "old:red" = .ok ⟨"old", "red"⟩ ∧ c.resolve "relay:" = .ok ⟨"relay", ""⟩ ∧
    c.resolve ":" = .ok ⟨"", ""⟩ := by
  have hid : separator ∉ "relay".toList := by decide
  obtain ⟨c, hc, hpieces⟩ := exists_of_map_ok (show (Catalog.build "relay" oddNames [] []).map
    (fun c => c.pieces) =
      .ok [⟨"relay", "red"⟩, ⟨"old", "red"⟩, ⟨"relay", ""⟩, ⟨"", ""⟩, ⟨"old", ""⟩] by rfl)
  obtain ⟨hresolve, -⟩ := printed_pieces_read_back hc hid
  rw [hpieces] at hresolve
  exact ⟨c, hc, hid, hpieces, hresolve ⟨"old", "red"⟩ (by decide),
    hresolve ⟨"relay", ""⟩ (by decide), hresolve ⟨"", ""⟩ (by decide)⟩

end Relay

end HexRules
