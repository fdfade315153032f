import HexRules.Random.Shared
import Mathlib.Data.List.Basic
import Mathlib.Logic.Function.Iterate

/-!
# The seed that is told

Shared randomness tells the seed that it was last asked for, also when that seed was refused, while
its sequence and its generator go on from the seed that was last accepted.  Nothing of that depends
on how sequences and generators work; all that is asked of them is which seeds they refuse.
`Follows n q uses s` says what is left of a history in `s`: it was seeded with `n`, whose sequence is
`q`, and `uses` have been made of it since, in which no other seed was accepted.

    Follows n q uses s, u is no seed or a refused one → Follows n q (uses ++ [u]) (s.use u)
                                                                         (Follows.use)
    a seed has been accepted → uses = before ++ .reseed n :: since, n the last one accepted, and
      Follows n q since (s.useAll uses)                                  (exists_follows)
    Follows n q since s → (s.seed = n ↔ no seed is refused in since)     (Follows.seed_eq_iff)
-/

namespace HexRules

/-! ## Sources of seeds -/

namespace SeedSource

/-- A sequence after it has given a number of children. -/
def afterChildren {σ γ : Type} [SeedSource σ γ] (q : σ) (count : Nat) : σ :=
  (fun q => (spawn q).2)^[count] q

/-- Negative seeds are refused, and no others. -/
structure RefusesNegative (σ γ : Type) [SeedSource σ γ] : Prop where
  accepts : ∀ n : Nat, ∃ q : σ, ofSeed (n : Int) = .ok q
  refuses : ∀ n : Int, n < 0 → ∃ e, (ofSeed n : Except Error σ) = .error e

theorem refusesNegative_pcg64 : RefusesNegative SeedSequence Pcg64 where
  accepts n := by
    have hn : ¬ (n : Int) < 0 := by omega
    exact ⟨SeedSequence.ofSeed n, if_neg hn⟩
  refuses n hn := ⟨.negativeSeed, if_pos hn⟩

/-- A root sequence that has given children remembers how many. -/
theorem afterChildren_ofSeed (seed count : Nat) :
    afterChildren (SeedSequence.ofSeed seed) count = ⟨seed, [], count⟩ := by
  induction count with
  | zero => rfl
  | succ count ih =>
    rw [afterChildren, Function.iterate_succ_apply', ← afterChildren, ih]
    rfl

end SeedSource

/-! ## Uses of shared randomness -/

inductive Use (γ : Type)
  | reseed (seed : Int)
  | spawn (seed : Option Int)
  /-- A draw from the shared generator, by the state in which it leaves the generator. -/
  | draw (next : γ → γ)

namespace Use

variable {γ : Type}

def asked? : Use γ → Option Int
  | reseed n => some n
  | _ => none

/-- Does it take a child of the shared sequence? -/
def takesChild : Use γ → Bool
  | spawn none => true
  | _ => false

def draw? : Use γ → Option (γ → γ)
  | draw next => some next
  | _ => none

end Use

namespace Randomness

/-! ## What a history consists of -/

section History

variable {γ : Type}

/-- The seeds that were asked for. -/
def asked (uses : List (Use γ)) : List Int := uses.filterMap Use.asked?

/-- How many children were taken from the shared sequence. -/
def children (uses : List (Use γ)) : Nat := uses.countP Use.takesChild

/-- What was drawn from the shared generator, one draw after the other. -/
def drawn (uses : List (Use γ)) : List (γ → γ) := uses.filterMap Use.draw?

/-- A generator after some draws. -/
def afterDraws (g : γ) (draws : List (γ → γ)) : γ := draws.foldl (fun g next => next g) g

theorem asked_concat (uses : List (Use γ)) (u : Use γ) :
    asked (uses ++ [u]) = asked uses ++ u.asked?.toList := by
  unfold asked
  rw [List.filterMap_append]
  cases u <;> rfl

theorem children_concat (uses : List (Use γ)) (u : Use γ) :
    children (uses ++ [u]) = children uses + if u.takesChild then 1 else 0 := by
  unfold children
  rw [List.countP_append, List.countP_singleton]

theorem drawn_concat (uses : List (Use γ)) (u : Use γ) :
    drawn (uses ++ [u]) = drawn uses ++ u.draw?.toList := by
  unfold drawn
  rw [List.filterMap_append]
  cases u <;> rfl

theorem mem_asked_iff {uses : List (Use γ)} {n : Int} : n ∈ asked uses ↔ Use.reseed n ∈ uses := by
  unfold asked
  rw [List.mem_filterMap]
  constructor
  · rintro ⟨u, hu, hn⟩
    cases u with
    | reseed m =>
      cases hn
      exact hu
    | spawn m => cases hn
    | draw next => cases hn
  · intro h
    exact ⟨.reseed n, h, rfl⟩

end History

variable {σ γ : Type} [SeedSource σ γ]

/-! ## Single uses -/

/-- Shared randomness after a use of it, also if it fails. -/
def use (s : Randomness σ γ) : Use γ → Randomness σ γ
  | .reseed n => (s.reseed n).2
  | .spawn n => (s.spawn n).2
  | .draw next => { s with generator := next s.generator }

def useAll (s : Randomness σ γ) (uses : List (Use γ)) : Randomness σ γ := uses.foldl use s

/-- Of what was before an accepted seed nothing is left. -/
theorem reseed_of_ok (s : Randomness σ γ) {n : Int} {q : σ} (hq : SeedSource.ofSeed n = .ok q) :
    s.reseed n = (.ok n, start n q) := by
  unfold reseed
  rw [hq]

/-- A refused seed is told from then on. -/
theorem reseed_of_error (s : Randomness σ γ) {n : Int} {e : Error}
    (he : (SeedSource.ofSeed n : Except Error σ) = .error e) :
    s.reseed n = (.error e, { s with seed := n }) := by
  unfold reseed
  rw [he]

theorem spawn_some (s : Randomness σ γ) (n : Int) : (s.spawn (some n)).2 = s := by
  cases hn : (SeedSource.ofSeed n : Except Error σ) with
  | error e => simp only [spawn, hn]
  | ok q => simp only [spawn, hn]

/-! ## Histories -/

/-- What is left of a history that began with the seed `n`, whose sequence is `q`, and went on with
`uses`. -/
structure Follows (n : Int) (q : σ) (uses : List (Use γ)) (s : Randomness σ γ) : Prop where
  seed : s.seed = (asked uses).getLastD n
  sequence : s.sequence = SeedSource.afterChildren q (children uses)
  generator : s.generator = afterDraws (SeedSource.generator q) (drawn uses)

theorem follows_start (n : Int) (q : σ) : Follows n q [] (start n q) := ⟨rfl, rfl, rfl⟩

section Follows

variable {n : Int} {q : σ} {uses : List (Use γ)} {s : Randomness σ γ}

/-- A refused seed is told and leaves the rest as it is. -/
theorem Follows.refuse (h : Follows n q uses s) {m : Int} {e : Error}
    (he : (SeedSource.ofSeed m : Except Error σ) = .error e) :
    Follows n q (uses ++ [.reseed m]) (s.reseed m).2 := by
  obtain ⟨-, hsequence, hgenerator⟩ := h
  rw [reseed_of_error s he]
  refine ⟨?_, ?_, ?_⟩
  · rw [asked_concat]
    exact List.getLastD_concat.symm
  · rw [children_concat]
    exact hsequence
  · rw [drawn_concat]
    show s.generator = afterDraws _ (drawn uses ++ [])
    rw [List.append_nil, hgenerator]

/-- Only a child of the shared sequence is noted, and it is noted there. -/
theorem Follows.spawn (h : Follows n q uses s) (m : Option Int) :
    Follows n q (uses ++ [.spawn m]) (s.spawn m).2 := by
  obtain ⟨hseed, hsequence, hgenerator⟩ := h
  have hasked : asked (uses ++ [.spawn m]) = asked uses := by
    rw [asked_concat]
    exact List.append_nil _
  have hdrawn : drawn (uses ++ [.spawn m]) = drawn uses := by
    rw [drawn_concat]
    exact List.append_nil _
  rw [← hasked] at hseed
  rw [← hdrawn] at hgenerator
  cases m with
  | some m =>
    rw [spawn_some]
    refine ⟨hseed, ?_, hgenerator⟩
    rw [children_concat]
    exact hsequence
  | none =>
    refine ⟨hseed, ?_, hgenerator⟩
    have hone : children (uses ++ [.spawn none]) = children uses + 1 := children_concat uses _
    show (SeedSource.spawn s.sequence).2 = _
    rw [hsequence, hone, SeedSource.afterChildren, SeedSource.afterChildren,
      Function.iterate_succ_apply']

theorem Follows.draw (h : Follows n q uses s) (next : γ → γ) :
    Follows n q (uses ++ [.draw next]) { s with generator := next s.generator } := by
  obtain ⟨hseed, hsequence, hgenerator⟩ := h
  refine ⟨?_, ?_, ?_⟩
  · rw [asked_concat]
    show s.seed = (asked uses ++ []).getLastD n
    rw [List.append_nil, hseed]
  · rw [children_concat]
    exact hsequence
  · rw [drawn_concat]
    show next s.generator = afterDraws _ (drawn uses ++ [next])
    rw [afterDraws, List.foldl_concat, hgenerator, afterDraws]

theorem Follows.use (h : Follows n q uses s) (u : Use γ)
    (hrefused : ∀ m, u = .reseed m → ∃ e, (SeedSource.ofSeed m : Except Error σ) = .error e) :
    Follows n q (uses ++ [u]) (s.use u) := by
  cases u with
  | reseed m =>
    obtain ⟨e, he⟩ := hrefused m rfl
    exact h.refuse he
  | spawn m => exact h.spawn m
  | draw next => exact h.draw next

theorem Follows.useAll (h : Follows n q uses s) (since : List (Use γ))
    (hrefused : ∀ m, Use.reseed m ∈ since →
      ∃ e, (SeedSource.ofSeed m : Except Error σ) = .error e) :
    Follows n q (uses ++ since) (s.useAll since) := by
  induction since generalizing uses s with
  | nil =>
    rw [List.append_nil]
    exact h
  | cons u rest ih =>
    have hu : ∀ m, u = .reseed m → ∃ e, (SeedSource.ofSeed m : Except Error σ) = .error e := by
      rintro m rfl
      exact hrefused m List.mem_cons_self
    have hrest := ih (h.use u hu) fun m hm => hrefused m (List.mem_cons_of_mem u hm)
    rw [List.append_assoc] at hrest
    exact hrest

end Follows

/-- Once a seed that is not negative has been asked for, there is a last one. -/
theorem exists_last_accepted {uses : List (Use γ)} (h : ∃ n : Nat, Use.reseed n ∈ uses) :
    ∃ before, ∃ n : Nat, ∃ since, uses = before ++ .reseed n :: since ∧
      ∀ m, Use.reseed m ∈ since → m < 0 := by
  induction uses with
  | nil =>
    obtain ⟨n, hn⟩ := h
    exact absurd hn List.not_mem_nil
  | cons u rest ih =>
    by_cases hrest : ∃ n : Nat, Use.reseed n ∈ rest
    · obtain ⟨before, n, since, rfl, hrefused⟩ := ih hrest
      exact ⟨u :: before, n, since, rfl, hrefused⟩
    · obtain ⟨n, hn⟩ := h
      rcases List.mem_cons.1 hn with rfl | hn
      · refine ⟨[], n, rest, rfl, fun m hm => ?_⟩
        by_contra hpos
        refine hrest ⟨m.toNat, ?_⟩
        rw [Int.toNat_of_nonneg (by omega)]
        exact hm
      · exact absurd ⟨n, hn⟩ hrest

/-- Whatever came before the last seed that was accepted leaves nothing behind. -/
theorem exists_follows (hrefuses : SeedSource.RefusesNegative σ γ) (s : Randomness σ γ)
    {uses : List (Use γ)} (h : ∃ n : Nat, Use.reseed n ∈ uses) :
    ∃ before, ∃ n : Nat, ∃ since, ∃ q : σ, uses = before ++ .reseed n :: since ∧
      (∀ m, Use.reseed m ∈ since → m < 0) ∧ SeedSource.ofSeed (n : Int) = .ok q ∧
      Follows n q since (s.useAll uses) := by
  obtain ⟨before, n, since, rfl, hnegative⟩ := exists_last_accepted h
  obtain ⟨q, hq⟩ := hrefuses.accepts n
  refine ⟨before, n, since, q, rfl, hnegative, hq, ?_⟩
  have hstart : s.useAll (before ++ .reseed n :: since) = (start (n : Int) q).useAll since := by
    unfold Randomness.useAll
    rw [List.foldl_append, List.foldl_cons]
    show since.foldl Randomness.use ((s.useAll before).reseed n).2 = _
    rw [reseed_of_ok _ hq]
  rw [hstart]
  exact (follows_start (n : Int) q).useAll since fun m hm => hrefuses.refuses m (hnegative m hm)

/-- The seed that is told is the one in use as long as none has been refused since. -/
theorem Follows.seed_eq_iff {n : Nat} {q : σ} {since : List (Use γ)} {s : Randomness σ γ}
    (h : Follows n q since s) (hnegative : ∀ m, Use.reseed m ∈ since → m < 0) :
    s.seed = n ↔ ∀ m, Use.reseed m ∉ since := by
  rw [h.seed]
  constructor
  · intro htold m hm
    have hne : asked since ≠ [] := List.ne_nil_of_mem (mem_asked_iff.2 hm)
    rw [List.getLastD_eq_getLast?, List.getLast?_eq_some_getLast hne, Option.getD_some] at htold
    have hlast := hnegative _ (mem_asked_iff.1 (List.getLast_mem hne))
    omega
  · intro hnone
    have hasked : asked since = [] :=
      List.eq_nil_iff_forall_not_mem.2 fun m hm => hnone m (mem_asked_iff.1 hm)
    rw [hasked]
    rfl

end Randomness

open Randomness

/-- **A refused seed is told.**  Take any seed sequences and generators that refuse the negative
seeds and no others, and any uses of shared randomness among which a seed has been accepted; let `n`
be the last such seed.  The shared sequence is the one of `n` less the children that were taken since,
and the shared generator the one of `n` after the draws since; refused seeds and generators with a
seed of their own have left no mark on either.  But the seed that is told is the one that was last
asked for, so it is `n` exactly if none has been refused since: a call that raises changes it and
nothing else. -/
theorem told_seed_is_last_asked {σ γ : Type} [SeedSource σ γ]
    (hrefuses : SeedSource.RefusesNegative σ γ) (s : Randomness σ γ) (uses : List (Use γ))
    (haccepted : ∃ n : Nat, Use.reseed n ∈ uses) :
    ∃ before, ∃ n : Nat, ∃ since, ∃ q : σ, uses = before ++ .reseed n :: since ∧
      (∀ m, Use.reseed m ∈ since → m < 0) ∧ SeedSource.ofSeed (n : Int) = .ok q ∧
      (s.useAll uses).sequence = SeedSource.afterChildren q (children since) ∧
      (s.useAll uses).generator = afterDraws (SeedSource.generator q) (drawn since) ∧
      (s.useAll uses).seed = (asked since).getLastD n ∧
      ((s.useAll uses).seed = n ↔ ∀ m, Use.reseed m ∉ since) ∧
      ∀ m e t, (s.useAll uses).reseed m = (.error e, t) → t = { s.useAll uses with seed := m } := by
  obtain ⟨before, n, since, q, huses, hnegative, hq, hfollows⟩ :=
    exists_follows hrefuses s haccepted
  refine ⟨before, n, since, q, huses, hnegative, hq, hfollows.sequence, hfollows.generator,
    hfollows.seed, hfollows.seed_eq_iff hnegative, ?_⟩
  intro m e t hraised
  cases hm : (SeedSource.ofSeed m : Except Error σ) with
  | error e' =>
    rw [reseed_of_error _ hm] at hraised
    exact (Prod.mk.inj hraised).2.symm
  | ok q' =>
    rw [reseed_of_ok _ hm] at hraised
    cases hraised

namespace Relay

open SeedSource

/-- Seven is accepted and minus one refused. -/
def refusedLater : List (Use Pcg64) :=
  [.reseed 3, .reseed 7, .spawn none, .reseed (-1), .draw fun g => (Generator.random g).2]

theorem seven_still_in_use :
    RefusesNegative SeedSequence Pcg64 ∧ (∃ n : Nat, Use.reseed n ∈ refusedLater) ∧
    ∃ before since, refusedLater = before ++ .reseed 7 :: since ∧ children since = 1 ∧
      ((Shared.start 0).useAll refusedLater).sequence = ⟨7, [], 1⟩ ∧
      ((Shared.start 0).useAll refusedLater).seed = -1 ∧ ¬ ∀ m, Use.reseed m ∉ since := by
  have haccepted : ∃ n : Nat, Use.reseed n ∈ refusedLater :=
    ⟨7, List.mem_cons_of_mem _ List.mem_cons_self⟩
  obtain ⟨before, n, since, q, huses, -, hq, hsequence, -, -, hiff, -⟩ :=
    told_seed_is_last_asked refusesNegative_pcg64 (Shared.start 0) refusedLater haccepted
  have hroot : q = SeedSequence.ofSeed n := by
    have hn : ¬ (n : Int) < 0 := by omega
    exact (Except.ok.inj ((if_neg hn).symm.trans hq)).symm
  rw [hroot, afterChildren_ofSeed] at hsequence
  have hknown : ((Shared.start 0).useAll refusedLater).sequence = ⟨7, [], 1⟩ := rfl
  have htold : ((Shared.start 0).useAll refusedLater).seed = -1 := rfl
  obtain ⟨rfl, -, hchildren⟩ := SeedSequence.mk.inj (hknown.symm.trans hsequence)
  refine ⟨refusesNegative_pcg64, haccepted, before, since, huses, hchildren.symm, hknown, htold,
    fun hnone => ?_⟩
  rw [htold] at hiff
  exact absurd (hiff.2 hnone) (by decide)

/-- A seed has been accepted, the next one raises, and the seed that is told is not the one in use. -/
theorem refused_seed_told :
    (((Shared.start 0).use (.reseed 7)).reseed (-1)).1 = .error .negativeSeed ∧
      ((Shared.start 0).useAll [.reseed 7, .reseed (-1)]).seed = -1 ∧
      ((Shared.start 0).useAll [.reseed 7, .reseed (-1)]).sequence = SeedSequence.ofSeed 7 ∧
      ((Shared.start 0).useAll [.reseed 7, .reseed (-1)]).generator =
        Pcg64.ofSequence (SeedSequence.ofSeed 7) ∧
      ((Shared.start 0).useAll [.reseed 7, .reseed (-1)]).seed ≠
        ((Shared.start 0).useAll [.reseed 7, .reseed (-1)]).sequence.seed := by
  have haccepted : (Shared.start 0).reseed 7 = (.ok 7, Shared.start 7) := reseed_of_ok _ rfl
  have hrefused : (Shared.start 7).reseed (-1) =
      (.error .negativeSeed, { Shared.start 7 with seed := -1 }) := reseed_of_error _ rfl
  have hall : (Shared.start 0).useAll [.reseed 7, .reseed (-1)] =
      { Shared.start 7 with seed := -1 } := by
    show (((Shared.start 0).reseed 7).2.reseed (-1)).2 = _
    rw [haccepted, hrefused]
  rw [hall]
  refine ⟨?_, rfl, rfl, rfl, by decide⟩
  show (((Shared.start 0).reseed 7).2.reseed (-1)).1 = _
  rw [haccepted, hrefused]

end Relay

end HexRules
