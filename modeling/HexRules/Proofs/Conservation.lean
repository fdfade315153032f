import HexRules.Proofs.GameTables
import HexRules.Proofs.PieceBalance

/-!
# What clicks conserve in `sigmar`

No rule of `sigmar` puts a piece in the place of one that it takes, so a cell keeps its piece until
it is cleared.  Vitae goes with mors, quicksilver with a metal other than gold, and salt and the
elements go by twos.

    no reaction places a piece → a click keeps or clears each cell       (Legal.thins_click)
    every reaction of the table is neutral to the three balances         (neutral_alchemyTable)
    d follows the table, s.Legal d → Conserved s.board (s.clicks cs).board
                                                                         (conserved_clicks)
-/

namespace HexRules

/-! ## Boards that get thinner -/

/-- On `b'` every cell holds what it holds on `b`, or nothing. -/
def Board.Thins {α : Type} (b b' : Board α) : Prop := ∀ c, b'.get? c = b.get? c ∨ b'.get? c = none

namespace Board.Thins

variable {α : Type} {b b' b'' : Board α}

theorem refl (b : Board α) : b.Thins b := fun _ => .inl rfl

theorem trans (h : b.Thins b') (h' : b'.Thins b'') : b.Thins b'' := by
  intro c
  rcases h' c with hkept | hcleared
  · rw [hkept]
    exact h c
  · exact .inr hcleared

end Board.Thins

/-- No reaction of the table puts a piece in the place of one that it takes. -/
def RuleSet.Clearing (table : List RuleEntry) : Prop := ∀ r ∈ reactionsOf table, ∀ e ∈ r, e.2 = none

theorem RuleSet.Tabulated.replacements_of_clearing {t : RuleSet} {table : List RuleEntry}
    {ctx : Context} {candidates : List Piece} {s : Scope} {m : RuleMatch} (h : t.Tabulated table)
    (hclearing : Clearing table) (hm : (t.test ctx candidates s).1 = .ok (.success m)) :
    ∀ q ∈ m.replacements, q = none := by
  intro q hq
  obtain ⟨r, hr, hlen, hperm⟩ := h.exists_reaction hm
  rw [← List.map_snd_zip (Nat.le_of_eq hlen.symm)] at hq
  obtain ⟨e, he, rfl⟩ := List.mem_map.1 hq
  exact hclearing r hr e (hperm.mem_iff.1 he)

namespace Session

variable {d : Definition} {s s' : Session} {c e : Coord} {p : Piece} {m : RuleMatch}
  {table : List RuleEntry}

/-- A cell that is written holds one of the replacements. -/
theorem Fires.get?_eq_none (h : s.Fires c p m s') (hnone : ∀ q ∈ m.replacements, q = none)
    (he : e ∈ s.selected ++ [c]) : s'.board.get? e = none := by
  obtain ⟨q, hq, hreplaced⟩ := exists_of_mem_forall₂ h.replaced he
  exact hreplaced.trans (hnone q hq)

theorem Fires.thins (h : s.Fires c p m s') (hnone : ∀ q ∈ m.replacements, q = none) :
    s.board.Thins s'.board := by
  intro e
  by_cases he : e ∈ s.selected ++ [c]
  · exact .inr (h.get?_eq_none hnone he)
  · exact .inl (h.others e he)

theorem Legal.replacements_of_clearing (h : s.Legal d) (htable : d.rules.Tabulated table)
    (hclearing : RuleSet.Clearing table) (hm : s.testWith c p = .ok (.success m)) :
    ∀ q ∈ m.replacements, q = none := by
  rw [testWith, h.definition_eq] at hm
  exact htable.replacements_of_clearing hclearing hm

theorem Legal.thins_click (h : s.Legal d) (htable : d.rules.Tabulated table)
    (hclearing : RuleSet.Clearing table) (c : Coord) :
    s.board.Thins (s.click c).session.board := by
  have heffect := h.effect c
  generalize (s.click c).status = status, (s.click c).session = s' at heffect
  cases heffect with
  | success p m s' hp hm hfires =>
    exact hfires.thins (h.replacements_of_clearing htable hclearing hm)
  | _ => exact .refl _

end Session

/-! ## Balances -/

namespace Games

open RuleSet Session

/-- Number of the pieces on a board that have one of the names. -/
def amount (b : Board Piece) (names : List String) : Int :=
  (b.pieces.countP fun p => p ∈ names.map sigmar : Nat)

/-- The metals that go with quicksilver. -/
def baseMetals : List String := ["lead", "tin", "iron", "copper", "silver"]

/-- Salt and what goes with it. -/
def elements : List String := ["salt", "air", "earth", "fire", "water"]

/-- What a later board has in common with an earlier one. -/
structure Conserved (b b' : Board Piece) : Prop where
  thins : b.Thins b'
  life : amount b' ["vitae"] - amount b' ["mors"] = amount b ["vitae"] - amount b ["mors"]
  metal : amount b' ["quicksilver"] - amount b' baseMetals =
    amount b ["quicksilver"] - amount b baseMetals
  parity : amount b' elements % 2 = amount b elements % 2

namespace Conserved

variable {b b' b'' : Board Piece}

theorem refl (b : Board Piece) : Conserved b b := ⟨.refl b, rfl, rfl, rfl⟩

theorem trans (h : Conserved b b') (h' : Conserved b' b'') : Conserved b b'' :=
  ⟨h.thins.trans h'.thins, h'.life.trans h.life, h'.metal.trans h.metal, h'.parity.trans h.parity⟩

end Conserved

/-- Number of the pieces of a reaction that have one of the names. -/
def takes (r : Reaction) (names : List String) : Nat :=
  r.taken.countP fun p => p ∈ names.map sigmar

theorem clearing_alchemyTable : Clearing alchemyTable := by
  unfold Clearing
  decide +kernel

theorem neutral_alchemyTable : ∀ r ∈ reactionsOf alchemyTable, r.placed = [] ∧
    takes r ["vitae"] = takes r ["mors"] ∧
    takes r ["quicksilver"] = takes r baseMetals ∧
    takes r elements % 2 = 0 := by
  decide +kernel

/-- With nothing placed, a board has less by what is taken. -/
theorem amount_of_exchanges {b b' : Board Piece} {r : Reaction} (h : b.Exchanges b' r)
    (hplaced : r.placed = []) (names : List String) :
    takes r names + amount b' names = amount b names := by
  have hcount := h.countP_eq fun p => p ∈ names.map sigmar
  rw [hplaced, List.countP_nil, Nat.zero_add] at hcount
  simp only [takes, amount]
  omega

variable {d : Definition} {s : Session}

theorem conserved_click (h : s.Legal d) (htable : d.rules.Tabulated alchemyTable) (c : Coord) :
    Conserved s.board (s.click c).session.board := by
  rcases h.exchange htable c with ⟨r, hr, -, hexchange⟩ | ⟨-, hboard⟩
  · obtain ⟨hplaced, hlife, hmetal, hparity⟩ := neutral_alchemyTable r hr
    have hamount := amount_of_exchanges hexchange hplaced
    refine ⟨h.thins_click htable clearing_alchemyTable c, ?_, ?_, ?_⟩
    · have hvitae := hamount ["vitae"]
      have hmors := hamount ["mors"]
      omega
    · have hquicksilver := hamount ["quicksilver"]
      have hmetals := hamount baseMetals
      omega
    · have helements := hamount elements
      omega
  · rw [hboard]
    exact .refl _

theorem conserved_clicks (h : s.Legal d) (htable : d.rules.Tabulated alchemyTable)
    (cs : List Coord) : Conserved s.board (s.clicks cs).board := by
  induction cs generalizing s with
  | nil => exact .refl _
  | cons c rest ih => exact (conserved_click h htable c).trans (ih (h.click c))

end Games

/-- **What `sigmar` conserves.**  On any board and after any clicks, more clicks leave in every cell
the piece that it holds, or nothing.  They change neither how many more vitae there are than mors,
nor how many more quicksilver than metals other than gold, nor whether the number of salt and
elements is even. -/
theorem pieces_conserved : ∃ d, Definition.compile Games.alchemy = .ok d ∧
    ∀ (b : Board Piece) (cs more : List Coord),
      Games.Conserved ((Session.onBoard d b).clicks cs).board
        (((Session.onBoard d b).clicks cs).clicks more).board := by
  obtain ⟨d, hd, htable⟩ := Games.exists_tabulated_of_profiles (Games.profiles_alchemy _)
  refine ⟨d, hd, fun b cs more => ?_⟩
  have hlegal : ((Session.onBoard d b).clicks cs).Legal d := (Session.legal_onBoard d b).clicks cs
  exact Games.conserved_clicks hlegal htable more

end HexRules
