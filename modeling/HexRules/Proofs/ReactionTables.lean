import HexRules.Proofs.ClickEffect
import HexRules.Proofs.Reactions
import HexRules.Proofs.RuleStatus
import Mathlib.Data.List.Sections

/-!
# Tables of reactions

The pieces that a predicate accepts can be listed, so all reactions of a link can be: `l.reactions`
asks the link about every choice of pieces for its slots.  Rules of one link whose guards and
results raise nothing, wherever they are evaluated, have a table of all that they do.

    r ∈ rs ↔ l.Reacts ctx s r, where l.reactions ctx s = .ok rs          (mem_reactions_iff)
    tabulated rules raise no error                                       (Tabulated.quiet)
    tabulated rules succeed → the candidates with their replacements are a reaction of the table
                                                                         (Tabulated.exists_reaction)
    tabulated rules succeed on the pieces of every reaction of the table
                                                                         (Tabulated.exists_success)
    tabulated rules are pending on a part of them that is not a reaction itself
                                                                         (Tabulated.pending_of_part)
-/

namespace HexRules

/-! ## Reactions of a link -/

namespace Predicate

/-- The pieces that a predicate accepts. -/
def accepted : Predicate → List Piece
  | literal wanted => [wanted]
  | member members _ => members
  | key table _ _ => table.keys

theorem mem_accepted_iff (q : Predicate) (p : Piece) : p ∈ q.accepted ↔ q.accepts p = true := by
  cases q with
  | literal wanted => simp [accepted, accepts]
  | member members bind => simp [accepted, accepts]
  | key table bindKey bindValue => exact (isSome_findEntry_iff p table.entries).symm

end Predicate

namespace Link

/-- All choices of pieces that the slots accept. -/
def fillings (l : Link) : List (List Piece) := (l.matcher.slots.map Predicate.accepted).sections

theorem mem_fillings_iff (l : Link) (pieces : List Piece) :
    pieces ∈ l.fillings ↔
      List.Forall₂ (fun q p => q.accepts p = true) l.matcher.slots pieces := by
  rw [fillings, List.mem_sections, List.forall₂_map_right_iff]
  simp only [Predicate.mem_accepted_iff]
  exact ⟨List.Forall₂.flip, List.Forall₂.flip⟩

/-- What the link does to all choices of pieces, or an error that it raises for one of them. -/
def reactions (l : Link) (ctx : Context) (s : Scope) : Except EvalError (List Reaction) := do
  let answers ← l.fillings.mapM (l.answer ctx s)
  .ok (answers.filterMap id)

variable {l : Link} {ctx : Context} {s : Scope} {rs : List Reaction}

theorem exists_answer_of_reactions (h : l.reactions ctx s = .ok rs) {pieces : List Piece}
    (haccepts : List.Forall₂ (fun q p => q.accepts p = true) l.matcher.slots pieces) :
    ∃ o, l.answer ctx s pieces = .ok o := by
  obtain ⟨answers, hanswers, -⟩ := exists_of_bind_ok h
  exact Succeeds.mapM_iff.1 ⟨answers, hanswers⟩ pieces ((l.mem_fillings_iff pieces).2 haccepts)

theorem mem_reactions_iff (h : l.reactions ctx s = .ok rs) (r : Reaction) :
    r ∈ rs ↔ l.Reacts ctx s r := by
  obtain ⟨answers, hanswers, h⟩ := exists_of_bind_ok h
  have hall := forall₂_of_mapM _ _ _ hanswers
  cases h
  simp only [List.mem_filterMap, id, exists_eq_right]
  constructor
  · intro hr
    obtain ⟨pieces, hpieces, ha⟩ := exists_of_mem_forall₂ (List.Forall₂.flip hall) hr
    exact (reacts_of_answer ((l.mem_fillings_iff pieces).1 hpieces) ha).1
  · intro hr
    obtain ⟨o, ho, ha⟩ := exists_of_mem_forall₂ hall ((l.mem_fillings_iff r.taken).2 hr.accepts)
    cases hr.answer_eq.symm.trans ha
    exact ho

end Link

/-! ## Tables -/

/-- What a table says of a rule. -/
structure RuleEntry where
  guarded : Bool
  reactions : List Reaction
  deriving DecidableEq, Repr

/-- The rule has one link, of which the entry lists all reactions. -/
structure Chain.Tabulated (c : Chain) (ctx : Context) (s : Scope) (e : RuleEntry) : Prop where
  next_eq : c.next = []
  guard_eq : c.first.guard.isSome = e.guarded
  reactions_eq : c.first.reactions ctx s = .ok e.reactions

/-- What can be computed of a rule: is it of one link, has it a guard, and what does it do? -/
def Chain.profile (c : Chain) (ctx : Context) (s : Scope) :
    Bool × Bool × Except EvalError (List Reaction) :=
  (c.next.isEmpty, c.first.guard.isSome, c.first.reactions ctx s)

theorem Chain.tabulated_of_profile {c : Chain} {ctx : Context} {s : Scope} {e : RuleEntry}
    (h : c.profile ctx s = (true, e.guarded, .ok e.reactions)) : c.Tabulated ctx s e := by
  simp only [profile, Prod.mk.injEq, List.isEmpty_iff] at h
  exact ⟨h.1, h.2.1, h.2.2⟩

namespace RuleSet

/-- At every cell of every board and in every scope the rules do what the table says. -/
def Tabulated (t : RuleSet) (table : List RuleEntry) : Prop :=
  ∀ ctx s, List.Forall₂ (fun c e => c.Tabulated ctx s e) t.rules table

theorem tabulated_of_profiles {t : RuleSet} {table : List RuleEntry}
    (h : ∀ ctx s, t.rules.map (fun c => c.profile ctx s) =
      table.map fun e => (true, e.guarded, .ok e.reactions)) : t.Tabulated table := by
  intro ctx s
  have hall := List.forall₂_eq_eq_eq ▸ h ctx s
  rw [List.forall₂_map_left_iff, List.forall₂_map_right_iff] at hall
  exact hall.imp fun c e => Chain.tabulated_of_profile

/-- All reactions of a table. -/
def reactionsOf (table : List RuleEntry) : List Reaction := table.flatMap RuleEntry.reactions

namespace Tabulated

variable {t : RuleSet} {table : List RuleEntry} {ctx : Context} {candidates : List Piece}
  {s : Scope} (h : t.Tabulated table)

include h

theorem quiet (ctx : Context) (candidates : List Piece) (s : Scope) :
    t.Quiet ctx candidates s := by
  intro c hc e he
  obtain ⟨entry, -, hentry⟩ := exists_of_mem_forall₂ (h ctx s) hc
  obtain ⟨pieces, haccepts, hanswer⟩ := Chain.exists_answer_of_error hentry.next_eq he
  obtain ⟨o, ho⟩ := Link.exists_answer_of_reactions hentry.reactions_eq haccepts
  cases hanswer.symm.trans ho

/-- A success is a reaction of the table. -/
theorem exists_reaction {m : RuleMatch} (hm : (t.test ctx candidates s).1 = .ok (.success m)) :
    ∃ r ∈ reactionsOf table, candidates.length = m.replacements.length ∧
      (candidates.zip m.replacements).Perm r := by
  obtain ⟨c, rs, -, hget, hrs, hreplacements⟩ := RuleSet.test_of_testFrom hm
  obtain ⟨entry, he, hentry⟩ := exists_of_mem_forall₂ (h ctx s) (List.mem_of_getElem? hget)
  obtain ⟨r, hreacts, hperm⟩ := Chain.exists_reacts_of_success hentry.next_eq hrs
  refine ⟨r, List.mem_flatMap.2 ⟨entry, he, ?_⟩, ?_, hreplacements ▸ hperm⟩
  · exact (Link.mem_reactions_iff hentry.reactions_eq r).2 hreacts
  · rw [hreplacements, length_inOrder]

/-- The pieces of a reaction, in the order in which the table lists them, are a match. -/
theorem exists_success {r : Reaction} (hr : r ∈ reactionsOf table) (ctx : Context) (s : Scope) :
    ∃ m, (t.test ctx r.taken s).1 = .ok (.success m) := by
  obtain ⟨entry, he, hr⟩ := List.mem_flatMap.1 hr
  obtain ⟨c, hc, hentry⟩ := exists_of_mem_forall₂ (List.Forall₂.flip (h ctx s)) he
  obtain ⟨rs, hrs⟩ := Chain.exists_success_of_reacts hentry.next_eq
    ((Link.mem_reactions_iff hentry.reactions_eq r).1 hr)
  exact (h.quiet ctx r.taken s).exists_success_iff.2 ⟨c, hc, rs, hrs⟩

/-- On a part of the pieces of a reaction the rules are pending, unless it is all of another one. -/
theorem pending_of_part {r : Reaction} (hr : r ∈ reactionsOf table)
    (hpart : ProperPart candidates r.taken)
    (hnone : ∀ r' ∈ reactionsOf table, ¬ candidates.Perm r'.taken) (ctx : Context) (s : Scope) :
    (t.test ctx candidates s).1 = .ok .pending := by
  obtain ⟨m, hm⟩ := h.exists_success hr ctx s
  have hnext : ∀ c ∈ t.rules, c.next = [] := fun c hc =>
    have ⟨_, _, hentry⟩ := exists_of_mem_forall₂ (h ctx s) hc
    hentry.next_eq
  have hgoal : t.Accepts ctx r.taken s := ⟨.success m, hm, rfl⟩
  obtain ⟨o, ho, hvalid⟩ := hgoal.of_part hnext hpart (h.quiet ctx candidates s)
  cases o with
  | success m' =>
    obtain ⟨r', hr', hlen, hperm⟩ := h.exists_reaction ho
    exact absurd (Reaction.perm_of_zip hlen hperm).1 (hnone r' hr')
  | pending => exact ho
  | failure => cases hvalid

end Tabulated

end RuleSet

end HexRules
