import HexRules.Definition
import HexRules.Proofs.NodeNames
import Mathlib.Algebra.Ring.Nat
import Mathlib.Control.Traversable.Instances
import Mathlib.Data.List.Permutation

/-!
# The counts of a bank

A document says under names how many pieces of each kind are dealt, and two names can stand for one
piece.  Then the later count is what is dealt, not the sum, so that the pieces which the earlier name
asks for are not dealt.

    (Table.ofList es).get? k = the last value under k                    (get?_ofList)
    d.pieceBank.count p = (d.bank.get? p).getD 0                         (count_pieceBank)
    compileOn … doc = .ok d → d.pieceBank.count p = (doc.counts p).getLastD 0
                                                                         (bank_counts_last_spelling)
-/

namespace HexRules

open Identifier

/-! ## Tables -/

section Tables

variable {κ β : Type} [DecidableEq κ]

/-- The values of the entries keyed `k`, in order. -/
def valuesOf (k : κ) (es : List (κ × β)) : List β :=
  (es.filter fun e => decide (e.1 = k)).map Prod.snd

theorem valuesOf_append (k : κ) (es fs : List (κ × β)) :
    valuesOf k (es ++ fs) = valuesOf k es ++ valuesOf k fs := by
  rw [valuesOf, List.filter_append, List.map_append]
  rfl

/-- The induction adds entries at the end, where the table is written last. -/
theorem Table.get?_ofList (es : List (κ × β)) (k : κ) :
    (ofList es).get? k = (valuesOf k es).getLast? := by
  induction es using List.reverseRecOn with
  | nil => rfl
  | append_singleton es e ih =>
    have hinsert : ofList (es ++ [e]) = (ofList es).insert e.1 e.2 := by
      rw [ofList, List.foldl_append]
      rfl
    rw [hinsert, get?_insert, ih, valuesOf_append]
    by_cases h : k = e.1
    · simp [valuesOf, h]
    · simp [valuesOf, h, Ne.symm h]

theorem count_flatMap_replicate {es : List (κ × Nat)} (h : (es.map Prod.fst).Nodup) (k : κ) :
    (es.flatMap fun e => List.replicate e.2 e.1).count k = (findEntry k es).getD 0 := by
  induction es with
  | nil => rfl
  | cons e rest ih =>
    obtain ⟨hnew, hrest⟩ := List.nodup_cons.1 h
    rw [List.flatMap_cons, List.count_append, ih hrest, List.count_replicate, findEntry]
    by_cases hk : e.1 = k
    · have hnone : findEntry k rest = none := by
        rw [← Option.not_isSome_iff_eq_none, isSome_findEntry_iff, ← hk]
        exact hnew
      simp [hk, hnone]
    · simp [hk]

end Tables

theorem getLastD_eq_sum_iff (ns : List Nat) :
    ns.getLastD 0 = ns.sum ↔ ∀ n ∈ ns.dropLast, n = 0 := by
  induction ns using List.reverseRecOn with
  | nil => simp
  | append_singleton ns n _ =>
    rw [List.getLastD_concat, List.sum_append, List.dropLast_concat,
      ← List.sum_eq_zero_iff_forall_eq_nat]
    simp

/-! ## Banks -/

namespace GameDocument

/-- The entries of the bank whose names stand for the piece. -/
def entriesFor (doc : GameDocument) (p : Piece) : List (String × Nat) :=
  doc.bank.filter fun e => decide (parse? e.1 doc.id = some p)

/-- Their counts, in the order of the document. -/
def counts (doc : GameDocument) (p : Piece) : List Nat := (doc.entriesFor p).map Prod.snd

theorem mem_entriesFor_iff {doc : GameDocument} {p : Piece} {e : String × Nat} :
    e ∈ doc.entriesFor p ↔ e ∈ doc.bank ∧ Written doc.id e.1 p := by
  rw [entriesFor, List.mem_filter, decide_eq_true_iff, parse?_eq_some_iff]

theorem counts_eq {doc : GameDocument} {bank : List (Piece × Nat)}
    (h : List.Forall₂ (fun e x => Written doc.id e.1 x.1 ∧ x.2 = e.2) doc.bank bank) (p : Piece) :
    doc.counts p = valuesOf p bank := by
  unfold counts entriesFor
  generalize doc.bank = entries at h ⊢
  induction h with
  | nil => rfl
  | @cons e x es xs hx _ ih =>
    obtain ⟨hwritten, hcount⟩ := hx
    rw [valuesOf, List.filter_cons, List.filter_cons, parse?_of_written hwritten]
    by_cases hp : x.1 = p
    · simp [hp, hcount, ih, valuesOf]
    · simp [hp, ih, valuesOf]

/-- Of two entries with different names for one piece, one has the bare name and the other one the
namespace in front. -/
theorem spelled_twice {doc : GameDocument} {p : Piece} (hkeys : (doc.bank.map Prod.fst).Nodup)
    (htwo : 1 < (doc.counts p).length) :
    p.space = doc.id ∧ p.name ∈ doc.bank.map Prod.fst ∧ p.text ∈ doc.bank.map Prod.fst := by
  have hmem : ∀ e ∈ doc.entriesFor p, e.1 ∈ doc.bank.map Prod.fst ∧ Written doc.id e.1 p :=
    fun e he => (mem_entriesFor_iff.1 he).imp_left List.mem_map_of_mem
  have hnodup : ((doc.entriesFor p).map Prod.fst).Nodup :=
    (List.filter_sublist.map Prod.fst).nodup hkeys
  rw [counts, List.length_map] at htwo
  generalize doc.entriesFor p = entries at hmem hnodup htwo
  match entries with
  | [] | [_] => simp at htwo
  | e :: e' :: rest =>
    have hne : e.1 ≠ e'.1 := fun heq => (List.nodup_cons.1 hnodup).1 (heq ▸ List.mem_cons_self)
    obtain ⟨he, hp⟩ := hmem e List.mem_cons_self
    obtain ⟨he', hp'⟩ := hmem e' (List.mem_cons_of_mem _ List.mem_cons_self)
    obtain ⟨hspace, ⟨hname, htext⟩ | ⟨htext, hname⟩⟩ := hp.spellings hp' hne
    · exact ⟨hspace, hname ▸ he, htext ▸ he'⟩
    · exact ⟨hspace, hname ▸ he', htext ▸ he⟩

end GameDocument

namespace Definition

theorem count_pieceBank (d : Definition) (p : Piece) :
    d.pieceBank.count p = (d.bank.get? p).getD 0 := by
  have hperm := List.mergeSort_perm d.bank.entries fun a b => a.1.le b.1
  rw [pieceBank, (hperm.flatMap_right _).count_eq]
  exact count_flatMap_replicate d.bank.nodup_keys p

theorem written_of_bankEntry {g : Game} {e : String × Nat} {x : Piece × Nat}
    (h : bankEntry g e = .ok x) : Written g.catalog.id e.1 x.1 ∧ x.2 = e.2 := by
  obtain ⟨p, hp, h⟩ := exists_of_bind_ok h
  cases h
  exact ⟨((g.catalog.resolve_eq_ok_iff e.1 p).1 hp).1, rfl⟩

/-- The entries of the bank in the order of the document, their names resolved. -/
theorem exists_bank_of_compileOn {functions : Registry FunctionBuilder}
    {predicates : Registry PredicateKind} {b : Board Piece} {doc : GameDocument} {d : Definition}
    (h : compileOn functions predicates b doc = .ok d) :
    ∃ bank, List.Forall₂ (fun e x => Written doc.id e.1 x.1 ∧ x.2 = e.2) doc.bank bank ∧
      d.bank = Table.ofList bank := by
  obtain ⟨catalog, hcatalog, h⟩ := exists_of_bind_ok h
  obtain ⟨rules, -, h⟩ := exists_of_bind_ok h
  obtain ⟨select, -, h⟩ := exists_of_bind_ok h
  obtain ⟨center, -, h⟩ := exists_of_bind_ok h
  obtain ⟨bank, hbank, h⟩ := exists_of_bind_ok h
  cases h
  obtain ⟨-, -, hid, -⟩ := Catalog.exists_of_build hcatalog
  refine ⟨bank, (forall₂_of_mapM _ _ _ hbank).imp fun e x hx => ?_, rfl⟩
  exact hid ▸ written_of_bankEntry hx

end Definition

/-- **The later count is dealt.**  The bank of a compiled game holds a piece as often as the last
entry says whose name stands for the piece.  So that is the sum of the counts of all such entries
exactly if those before the last one say zero.  Where no name comes twice in the document, only a
piece that is named bare and with the id of the game in front can have more than one entry. -/
theorem bank_counts_last_spelling {functions : Registry FunctionBuilder}
    {predicates : Registry PredicateKind} {b : Board Piece} {doc : GameDocument} {d : Definition}
    (h : Definition.compileOn functions predicates b doc = .ok d) (p : Piece) :
    d.pieceBank.count p = (doc.counts p).getLastD 0 ∧
      (d.pieceBank.count p = (doc.counts p).sum ↔ ∀ n ∈ (doc.counts p).dropLast, n = 0) ∧
      ((doc.bank.map Prod.fst).Nodup → 1 < (doc.counts p).length →
        p.space = doc.id ∧ p.name ∈ doc.bank.map Prod.fst ∧ p.text ∈ doc.bank.map Prod.fst) := by
  obtain ⟨bank, hbank, hd⟩ := Definition.exists_bank_of_compileOn h
  have hcount : d.pieceBank.count p = (doc.counts p).getLastD 0 := by
    rw [d.count_pieceBank, hd, Table.get?_ofList, GameDocument.counts_eq hbank,
      List.getLastD_eq_getLast?]
  refine ⟨hcount, ?_, GameDocument.spelled_twice⟩
  rw [hcount, getLastD_eq_sum_iff]

namespace Relay

/-- The entry for the blue piece that does not count says zero. -/
def fairBank : List (String × Nat) := [("red", 1), ("blue", 0), ("relay:blue", 2)]

theorem fair_bank_dealt : ∃ d,
    Definition.compile (document ["red", "blue"] fairBank) = .ok d ∧
      d.pieceBank.count ⟨"relay", "red"⟩ = 1 ∧ d.pieceBank.count ⟨"relay", "blue"⟩ = 2 ∧
      "blue" ∈ fairBank.map Prod.fst ∧
      (⟨"relay", "blue"⟩ : Piece).text ∈ fairBank.map Prod.fst := by
  obtain ⟨d, hd, -⟩ := exists_of_map_ok (show (Definition.compile
    (document ["red", "blue"] fairBank)).map (fun d => d.id) = .ok "relay" by cbv)
  obtain ⟨hred, -, -⟩ := bank_counts_last_spelling hd ⟨"relay", "red"⟩
  obtain ⟨-, hblue, hspelled⟩ := bank_counts_last_spelling hd ⟨"relay", "blue"⟩
  exact ⟨d, hd, hred, hblue.2 (by decide +kernel), (hspelled (by decide) (by decide +kernel)).2⟩

/-- Three red pieces are asked for, and two are dealt. -/
theorem first_red_dropped :
    GameDocument.check (written ["red"] [("red", 1), ("relay:red", 2)]) =
        .ok (document ["red"] [("red", 1), ("relay:red", 2)]) ∧
      ∃ d, Definition.compile (document ["red"] [("red", 1), ("relay:red", 2)]) = .ok d ∧
        (document ["red"] [("red", 1), ("relay:red", 2)]).counts ⟨"relay", "red"⟩ = [1, 2] ∧
        d.pieceBank = [⟨"relay", "red"⟩, ⟨"relay", "red"⟩] ∧
        d.pieceBank.count ⟨"relay", "red"⟩ ≠ [1, 2].sum := by
  obtain ⟨d, hd, hbank⟩ := exists_of_map_ok (show (Definition.compile
    (document ["red"] [("red", 1), ("relay:red", 2)])).map (fun d => d.pieceBank) =
      .ok [⟨"relay", "red"⟩, ⟨"relay", "red"⟩] by cbv)
  exact ⟨by rfl, d, hd, by decide +kernel, hbank, by rw [hbank]; decide⟩

end Relay

end HexRules
