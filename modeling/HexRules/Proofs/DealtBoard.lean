import HexRules.Play.Session
import HexRules.Proofs.BoardPieces
import HexRules.Random.Scripted

/-!
# Dealt boards

The pieces still to be dealt are a stack.  Whatever is drawn, a ring takes some pieces off the top of
the stack and puts them on empty cells, and the pieces that are left go on empty cells one by one;
a piece that finds no cell is still on the stack, or the attempt fails.  So the board of an attempt
that succeeds holds the bank around the centre piece.

    Places p (dealCells chance nearness cells p) placed for some placed  (places_dealCells)
    Places p (dealRings radius p) placed for some placed                 (places_dealRings)
    (placeRest cells tries pieces b g).1 = some b' → b.Gains b' pieces   (gains_of_placeRest)
    (attempt bank radius center tries g).1 = some b → LaidOut radius center bank b
                                                                         (laidOut_of_attempt)
    a deal: the bank is too large, or an attempt gives the board, or none does   (deal_cases)
    deal of the bank and centre of d = (.ok dealt, g') → newGame d g = (.ok (a session on
      dealt.board, …), g')                                               (newGame_of_deal)
    … = (.error e, g') → newGame d g = (.error (.board e), g')           (newGame_of_error)
-/

namespace HexRules

open Coord

/-- All that dealing asks of a source of randomness: a shuffle only reorders. -/
def Generator.Reorders (γ : Type) [Generator γ] : Prop :=
  ∀ {α : Type} (items : List α) (g : γ), (Generator.shuffle items g).1.Perm items

theorem Generator.reorders_of_lawful (γ : Type) [Generator γ] [LawfulGenerator γ] : Reorders γ :=
  fun items g => LawfulGenerator.shuffle_perm items g

namespace Deal

variable {α γ : Type}

/-! ## Rings -/

/-- `q` is `p` after the pieces `placed` have gone from the top of the stack to the board. -/
structure Places (p q : Progress α γ) (placed : List α) : Prop where
  pending_eq : p.pending = placed ++ q.pending
  gains : p.board.Gains q.board placed

theorem Places.refl (p : Progress α γ) : Places p p [] := ⟨rfl, Board.Gains.refl p.board⟩

theorem Places.trans {p q r : Progress α γ} {placed placed' : List α} (h : Places p q placed)
    (h' : Places q r placed') : Places p r (placed ++ placed') := by
  refine ⟨?_, h.gains.trans h'.gains⟩
  rw [h.pending_eq, h'.pending_eq, List.append_assoc]

variable [Generator γ]

/-- The induction is on the cells: each takes the piece on top of the stack or leaves it there. -/
theorem places_dealCells (chance nearness : Rat) (cells : List Coord) (p : Progress α γ) :
    ∃ placed, Places p (dealCells chance nearness cells p) placed := by
  induction cells generalizing p with
  | nil => exact ⟨[], Places.refl p⟩
  | cons c rest ih =>
    obtain ⟨pending, board, gen⟩ := p
    cases pending with
    | nil => exact ⟨[], Places.refl _⟩
    | cons piece pending =>
      simp only [dealCells]
      split
      · obtain ⟨placed, h⟩ := ih ⟨piece :: pending, board, (Generator.random gen).2⟩
        exact ⟨placed, h.pending_eq, h.gains⟩
      · split
        · rename_i board' hinsert
          obtain ⟨placed, h⟩ :=
            ih ⟨pending, board', (Generator.random (Generator.random gen).2).2⟩
          refine ⟨piece :: placed, ?_, (Board.gains_of_tryInsert hinsert).trans h.gains⟩
          rw [List.cons_append, ← h.pending_eq]
        · obtain ⟨placed, h⟩ :=
            ih ⟨piece :: pending, board, (Generator.random (Generator.random gen).2).2⟩
          exact ⟨placed, h.pending_eq, h.gains⟩

theorem places_dealRing (radius : Nat) (p : Progress α γ) (step : Nat) :
    ∃ placed, Places p (dealRing radius p step) placed := by
  obtain ⟨placed, h⟩ := places_dealCells (ringChance step) (nearestRatio step radius)
    (Generator.shuffle (ring step origin) p.gen).1
    { p with gen := (Generator.shuffle (ring step origin) p.gen).2 }
  exact ⟨placed, h.pending_eq, h.gains⟩

theorem places_dealRings (radius : Nat) (p : Progress α γ) :
    ∃ placed, Places p (dealRings radius p) placed := by
  unfold dealRings
  generalize (List.range radius).map (· + 1) = steps
  induction steps generalizing p with
  | nil => exact ⟨[], Places.refl p⟩
  | cons step rest ih =>
    obtain ⟨placed, h⟩ := places_dealRing radius p step
    obtain ⟨placed', h'⟩ := ih (dealRing radius p step)
    exact ⟨placed ++ placed', h.trans h'⟩

/-! ## Pieces that are left -/

theorem gains_of_placeDrawn {cells : Array Coord} {piece : α} {tries : Nat} {b b' : Board α}
    {g : γ} (h : (placeDrawn cells piece tries b g).1 = some b') : b.Gains b' [piece] := by
  induction tries generalizing g with
  | zero => cases h
  | succ tries ih =>
    rw [placeDrawn] at h
    split at h
    · exact ih h
    · split at h
      · rename_i board hinsert
        cases h
        exact Board.gains_of_tryInsert hinsert
      · exact ih h

theorem gains_of_placeRest {cells : Array Coord} {tries : Nat} {pieces : List α} {b b' : Board α}
    {g : γ} (h : (placeRest cells tries pieces b g).1 = some b') : b.Gains b' pieces := by
  induction pieces generalizing b g with
  | nil =>
    cases h
    exact Board.Gains.refl _
  | cons piece rest ih =>
    rw [placeRest] at h
    split at h
    · cases h
    · rename_i board g' hdrawn
      exact (gains_of_placeDrawn (congrArg Prod.fst hdrawn)).trans (ih h)

/-! ## Attempts -/

/-- A board with the cells of a radius, each listed once, on which a bank and a centre piece lie and
nothing else, the centre piece in the middle. -/
structure LaidOut (radius : Nat) (center : Option α) (bank : List α) (b : Board α) : Prop where
  coords_eq : b.coords = hexRange radius origin
  inBounds_iff : ∀ c, b.inBounds c = true ↔ c ∈ hexRange radius origin
  nodup : b.coords.Nodup
  pieces_perm : b.pieces.Perm (center.toList ++ bank)
  center_eq : ∀ p, center = some p → b.get? origin = some p

theorem get?_firstBoard (radius : Nat) (center : Option α) (c : Coord) :
    (firstBoard radius center).get? c = if c = origin then center else none := by
  cases center with
  | none => rw [firstBoard, Board.get?_empty, ite_self]
  | some piece => rw [firstBoard, Board.get?_put, Board.get?_empty]

theorem laidOut_firstBoard (radius : Nat) (center : Option α) :
    LaidOut radius center [] (firstBoard radius center) := by
  have hradius : (firstBoard radius center).radius = radius := by cases center <;> rfl
  refine ⟨?_, ?_, Board.nodup_coords _, ?_, ?_⟩
  · rw [Board.coords, hradius]
  · intro c
    rw [Board.inBounds_iff_mem, hradius]
  · cases center with
    | none =>
      rw [firstBoard, Board.pieces_empty]
      exact List.Perm.refl _
    | some piece =>
      have hperm := (Board.empty radius).perm_pieces_put origin (some piece)
        (Board.inBounds_origin _)
      rw [Board.get?_empty, Board.pieces_empty] at hperm
      exact hperm
  · rintro piece rfl
    rw [get?_firstBoard, if_pos rfl]

theorem LaidOut.gains {radius : Nat} {center : Option α} {bank placed : List α} {b b' : Board α}
    (h : LaidOut radius center bank b) (hgains : b.Gains b' placed) :
    LaidOut radius center (bank ++ placed) b' := by
  have hcoords : b'.coords = b.coords := by rw [Board.coords, hgains.radius_eq, Board.coords]
  refine ⟨hcoords.trans h.coords_eq, ?_, b'.nodup_coords, ?_, ?_⟩
  · intro c
    rw [Board.inBounds_iff_mem, hgains.radius_eq, ← Board.inBounds_iff_mem, h.inBounds_iff]
  · have hperm := hgains.perm.trans (h.pieces_perm.append_left placed)
    rw [← List.append_assoc]
    exact hperm.trans List.perm_append_comm
  · intro p hp
    exact hgains.keeps origin p (h.center_eq p hp)

theorem LaidOut.perm {radius : Nat} {center : Option α} {bank bank' : List α} {b : Board α}
    (h : LaidOut radius center bank b) (hperm : bank.Perm bank') :
    LaidOut radius center bank' b :=
  ⟨h.coords_eq, h.inBounds_iff, h.nodup, h.pieces_perm.trans (hperm.append_left _), h.center_eq⟩

theorem laidOut_of_attempt (hshuffle : Generator.Reorders γ) {bank : List α} {radius : Nat}
    {center : Option α} {tries : Nat} {g : γ} {b : Board α}
    (h : (attempt bank radius center tries g).1 = some b) : LaidOut radius center bank b := by
  unfold attempt at h
  simp only at h
  obtain ⟨placed, hrings⟩ := places_dealRings radius
    ⟨(Generator.shuffle bank g).1.reverse, firstBoard radius center, (Generator.shuffle bank g).2⟩
  -- the stack from its top down, first those that the rings took
  have hstack := hrings.pending_eq
  have hgains := hrings.gains.trans (gains_of_placeRest h)
  rw [← hstack] at hgains
  have hperm : (Generator.shuffle bank g).1.reverse.Perm bank :=
    (List.reverse_perm _).trans (hshuffle bank g)
  exact ((laidOut_firstBoard radius center).gains hgains).perm hperm

/-- The board comes from the attempt that succeeds. -/
theorem exists_attempt_of_attempts {bank : List α} {radius : Nat} {center : Option α}
    {tries left number : Nat} {g : γ} {dealt : Dealt α}
    (h : (attempts bank radius center tries left number g).1 = some dealt) :
    ∃ g : γ, (attempt bank radius center tries g).1 = some dealt.board := by
  induction left generalizing number g with
  | zero => cases h
  | succ left ih =>
    rw [attempts] at h
    split at h
    · rename_i board g' hattempt
      cases h
      exact ⟨g, congrArg Prod.fst hattempt⟩
    · exact ih h

/-- A bank that fits is dealt when the first attempt succeeds. -/
theorem deal_of_attempt {bank : List α} {radius : Nat} {center : Option α} {maxAttempts : Int}
    {g : γ} {b : Board α} (hfits : (bank.length : Int) ≤ capacity radius center)
    (hmax : 0 < maxAttempts) (h : (attempt bank radius center maxAttempts.toNat g).1 = some b) :
    (deal bank radius center maxAttempts g).1 = .ok ⟨b, 1⟩ := by
  obtain ⟨left, hleft⟩ : ∃ left, maxAttempts.toNat = left + 1 :=
    ⟨maxAttempts.toNat - 1, by omega⟩
  rw [deal, if_neg (by omega), if_neg (by omega), if_neg (by omega), Int.toNat_natCast]
  cases hr : attempt bank radius center maxAttempts.toNat g with
  | mk found g' =>
    rw [hr] at h
    simp only at h
    subst h
    rw [hleft] at hr ⊢
    simp only [attempts, hr]

/-- Either the bank is too large, or one of the attempts gives the board, or none does. -/
theorem deal_cases (bank : List α) (radius : Nat) (center : Option α) (maxAttempts : Int) (g : γ) :
    (capacity radius center < bank.length ∧ (deal bank radius center maxAttempts g).1 =
      .error (.tooManyPieces bank.length (capacity radius center))) ∨
    ((bank.length : Int) ≤ capacity radius center ∧
      ∃ dealt, (deal bank radius center maxAttempts g).1 = .ok dealt ∧
        ∃ g : γ, (attempt bank radius center maxAttempts.toNat g).1 = some dealt.board) ∨
    ((bank.length : Int) ≤ capacity radius center ∧
      (deal bank radius center maxAttempts g).1 = .error (.gaveUp bank.length maxAttempts)) := by
  unfold deal
  split
  · rename_i hmany
    exact .inl ⟨hmany, rfl⟩
  · rename_i hmany
    have hfits := Int.not_lt.1 hmany
    split
    · exact .inr (.inr ⟨hfits, rfl⟩)
    · rw [if_neg (by omega), Int.toNat_natCast]
      split
      · rename_i dealt g' hattempts
        have hattempt := exists_attempt_of_attempts (congrArg Prod.fst hattempts)
        exact .inr (.inl ⟨hfits, dealt, rfl, hattempt⟩)
      · exact .inr (.inr ⟨hfits, rfl⟩)

/-- A board that is dealt comes from one of the attempts. -/
theorem exists_attempt_of_deal {bank : List α} {radius : Nat} {center : Option α}
    {maxAttempts : Int} {g : γ} {dealt : Dealt α}
    (h : (deal bank radius center maxAttempts g).1 = .ok dealt) :
    ∃ g : γ, (attempt bank radius center maxAttempts.toNat g).1 = some dealt.board := by
  rcases deal_cases bank radius center maxAttempts g with
    ⟨-, hmany⟩ | ⟨-, dealt', hdealt, hattempt⟩ | ⟨-, hgaveUp⟩
  · cases h.symm.trans hmany
  · cases h.symm.trans hdealt
    exact hattempt
  · cases h.symm.trans hgaveUp

theorem family_of_deal {bank : List α} {radius : Nat} {center : Option α} {maxAttempts : Int}
    {g g' : γ} {e : BoardError} (h : deal bank radius center maxAttempts g = (.error e, g')) :
    e.family? = some .deal := by
  have herror := congrArg Prod.fst h
  rcases deal_cases bank radius center maxAttempts g with
    ⟨-, hmany⟩ | ⟨-, dealt, hdealt, -⟩ | ⟨-, hgaveUp⟩
  · cases herror.symm.trans hmany
    rfl
  · cases herror.symm.trans hdealt
  · cases herror.symm.trans hgaveUp
    rfl

/-- A deal lays out the bank, or raises an error of its own. -/
theorem deal_spec (hshuffle : Generator.Reorders γ) (bank : List α) (radius : Nat)
    (center : Option α) (maxAttempts : Int) (g : γ) :
    (∃ dealt, (deal bank radius center maxAttempts g).1 = .ok dealt ∧
      LaidOut radius center bank dealt.board) ∨
    ∃ e, (deal bank radius center maxAttempts g).1 = .error e ∧ e.family? = some .deal := by
  rcases deal_cases bank radius center maxAttempts g with
    ⟨-, hmany⟩ | ⟨-, dealt, hdealt, _, hattempt⟩ | ⟨-, hgaveUp⟩
  · exact .inr ⟨_, hmany, rfl⟩
  · exact .inl ⟨dealt, hdealt, laidOut_of_attempt hshuffle hattempt⟩
  · exact .inr ⟨_, hgaveUp, rfl⟩

end Deal

namespace Session

open Deal

/-- A new game has the bank of its definition on the board and nothing selected. -/
structure Fresh (d : Definition) (s : Session) : Prop where
  definition_eq : s.definition = d.withBoard s.board
  selected_eq : s.selected = []
  laidOut : LaidOut d.radius d.center d.pieceBank s.board

section NewGame

variable {γ : Type} [Generator γ] {d : Definition} {g g' : γ}

/-- A new game is played on the board that is dealt. -/
theorem newGame_of_deal {dealt : Dealt Piece}
    (h : deal d.pieceBank d.radius d.center defaultAttempts g = (.ok dealt, g')) :
    newGame d g = (.ok (onBoard d dealt.board,
      [.boardDealt d.pieceBank.length d.radius dealt.attempts]), g') := by
  unfold newGame
  rw [h]

theorem newGame_of_error {e : BoardError}
    (h : deal d.pieceBank d.radius d.center defaultAttempts g = (.error e, g')) :
    newGame d g = (.error (.board e), g') := by
  unfold newGame
  rw [h]

/-- What is dealt for a new game is its bank around its centre piece. -/
theorem fresh_of_deal (hshuffle : Generator.Reorders γ) {dealt : Dealt Piece}
    (h : deal d.pieceBank d.radius d.center defaultAttempts g = (.ok dealt, g')) :
    (onBoard d dealt.board).Fresh d := by
  obtain ⟨g₁, hattempt⟩ := exists_attempt_of_deal (congrArg Prod.fst h)
  exact ⟨rfl, rfl, laidOut_of_attempt hshuffle hattempt⟩

theorem newGame_spec (hshuffle : Generator.Reorders γ) (d : Definition) (g : γ) :
    (∃ s events, (newGame d g).1 = .ok (s, events) ∧ s.Fresh d) ∨
    ∃ e, (newGame d g).1 = .error (.board e) ∧ e.family? = some .deal := by
  cases h : deal d.pieceBank d.radius d.center defaultAttempts g with
  | mk answer g' =>
    cases answer with
    | ok dealt =>
      exact .inl ⟨_, _, congrArg Prod.fst (newGame_of_deal h), fresh_of_deal hshuffle h⟩
    | error e => exact .inr ⟨e, congrArg Prod.fst (newGame_of_error h), family_of_deal h⟩

end NewGame

/-- A generator of its own deals like one that is given. -/
theorem spawnGame_of_spawn {d : Definition} {shared shared' : Shared} {seed : Option Int}
    {g : Pcg64} (h : shared.spawn seed = (.ok g, shared')) :
    spawnGame d shared seed = ((newGame d g).1, shared') := by
  unfold spawnGame
  rw [h]

theorem spawnGame_of_error {d : Definition} {shared shared' : Shared} {seed : Option Int}
    {e : Error} (h : shared.spawn seed = (.error e, shared')) :
    spawnGame d shared seed = (.error e, shared') := by
  unfold spawnGame
  rw [h]

theorem fresh_of_spawnGame {d : Definition} {shared : Shared} {seed : Option Int} {s : Session}
    {events : List Event} (h : (spawnGame d shared seed).1 = .ok (s, events)) : s.Fresh d := by
  cases hspawn : shared.spawn seed with
  | mk answer shared' =>
    cases answer with
    | error e =>
      rw [spawnGame_of_error hspawn] at h
      cases h
    | ok g =>
      rw [spawnGame_of_spawn hspawn] at h
      rcases newGame_spec (Generator.reorders_of_lawful Pcg64) d g with
        ⟨s', events', hok, hfresh⟩ | ⟨e, herror, -⟩
      · rw [hok] at h
        cases h
        exact hfresh
      · rw [herror] at h
        cases h

end Session

/-- **Dealing keeps the bank.**  Whatever is drawn, a deal gives a board or raises an error of
dealing, nothing else.  The board has the cells of its radius, and on it lie exactly the pieces of
the bank and the centre piece, the latter in the middle.  A new game deals the bank of its definition
around its centre piece: where that gives a board, the game is a session on this board, with nothing
selected, so it has on its board the bank and the centre piece of its definition; and where it raises
an error, so does the game.  With a generator of its own, of a seed or of the shared sequence, it is
the new game of that generator, and it has none where the seed is refused. -/
theorem deal_lays_out_bank {γ : Type} [Generator γ] (hshuffle : Generator.Reorders γ) :
    (∀ {α : Type} (bank : List α) (radius : Nat) (center : Option α) (maxAttempts : Int) (g : γ),
      (∃ dealt, (deal bank radius center maxAttempts g).1 = .ok dealt ∧
        Deal.LaidOut radius center bank dealt.board) ∨
      ∃ e, (deal bank radius center maxAttempts g).1 = .error e ∧ e.family? = some .deal) ∧
    ∀ d : Definition,
      (∀ (g g' : γ) (dealt : Deal.Dealt Piece),
        deal d.pieceBank d.radius d.center Deal.defaultAttempts g = (.ok dealt, g') →
          ∃ s, Session.newGame d g =
              (.ok (s, [.boardDealt d.pieceBank.length d.radius dealt.attempts]), g') ∧
            s.board = dealt.board ∧ s.Fresh d) ∧
      (∀ (g g' : γ) (e : BoardError),
        deal d.pieceBank d.radius d.center Deal.defaultAttempts g = (.error e, g') →
          Session.newGame d g = (.error (.board e), g') ∧ e.family? = some .deal) ∧
      ∀ shared seed,
        (∀ r shared', shared.spawn seed = (.ok r, shared') →
          Session.spawnGame d shared seed = ((Session.newGame d r).1, shared')) ∧
        (∀ e shared', shared.spawn seed = (.error e, shared') →
          Session.spawnGame d shared seed = (.error e, shared')) ∧
        ∀ s events, (Session.spawnGame d shared seed).1 = .ok (s, events) → s.Fresh d := by
  refine ⟨Deal.deal_spec hshuffle, fun d => ⟨?_, ?_, fun shared seed => ⟨?_, ?_, ?_⟩⟩⟩
  · intro g g' dealt h
    exact ⟨Session.onBoard d dealt.board, Session.newGame_of_deal h, rfl,
      Session.fresh_of_deal hshuffle h⟩
  · exact fun g g' e h => ⟨Session.newGame_of_error h, Deal.family_of_deal h⟩
  · exact fun r shared' h => Session.spawnGame_of_spawn h
  · exact fun e shared' h => Session.spawnGame_of_error h
  · exact fun s events h => Session.fresh_of_spawnGame h

namespace Relay

open Deal

/-- Draws that pass over every ring, then try the middle and a cell beside it. -/
def draws : Scripted := ⟨#[2], #[0, 1], .reverse, 0, 0⟩

theorem reorders_scripted : Generator.Reorders Scripted := by
  intro α items g
  show (Scripted.reorder g.mode items).Perm items
  cases g.mode with
  | keep => exact List.Perm.refl _
  | reverse => exact List.reverse_perm _
  | rotate =>
    cases items with
    | nil => exact List.Perm.refl _
    | cons first rest => exact List.perm_append_singleton first rest

theorem dealRings_draws {α : Type} (piece : α) (b : Board α) :
    dealRings 1 ⟨[piece], b, draws⟩ = ⟨[piece], b, ⟨#[2], #[0, 1], .reverse, 6, 0⟩⟩ := by
  have hskip : (1 : Rat) < 2 := by decide
  have hring : ring 1 origin = [⟨-1, 1⟩, ⟨0, 1⟩, ⟨1, 0⟩, ⟨1, -1⟩, ⟨0, -1⟩, ⟨-1, 0⟩] := rfl
  simp [dealRings, dealRing, hring, Generator.shuffle, Scripted.reorder, dealCells,
    Generator.random, ringChance, hskip, draws, Nat.mod_one]

/-- The middle is taken, and the cell that is drawn next lies beside it. -/
theorem placeRest_draws {α : Type} (piece middle : α) (tries : Nat) :
    ∃ b, (placeRest (hexRange 1 origin).toArray (tries + 2) [piece] (firstBoard 1 (some middle))
      (⟨#[2], #[0, 1], .reverse, 6, 0⟩ : Scripted)).1 = some b := by
  have hcells : (hexRange 1 origin).toArray =
      #[origin, ⟨-1, 1⟩, ⟨0, 1⟩, ⟨1, 0⟩, ⟨1, -1⟩, ⟨0, -1⟩, ⟨-1, 0⟩] := rfl
  have hfirst := laidOut_firstBoard 1 (some middle)
  have horigin := hfirst.center_eq middle rfl
  have hempty : (firstBoard 1 (some middle)).get? ⟨-1, 1⟩ = none := by
    rw [firstBoard, Board.get?_put, if_neg (by decide), Board.get?_empty]
  have hin : (firstBoard 1 (some middle)).inBounds ⟨-1, 1⟩ = true :=
    (hfirst.inBounds_iff _).2 (by decide)
  have hbeside : (firstBoard 1 (some middle)).hasNeighbor ⟨-1, 1⟩ = true :=
    List.any_eq_true.2 ⟨origin, by decide, by rw [horigin]; rfl⟩
  simp [placeRest, placeDrawn, hcells, Generator.below, Board.tryInsert, horigin, hempty, hin,
    hbeside]

/-- One piece is dealt beside another one, in the first attempt. -/
theorem deal_draws {α : Type} (piece middle : α) (tries : Nat) :
    ∃ b, (deal [piece] 1 (some middle) (tries + 2 : Nat) draws).1 = .ok ⟨b, 1⟩ := by
  have hfits : (1 : Int) ≤ (hexRangeOfInt 1 origin).length - 1 := by decide
  obtain ⟨b, hb⟩ := placeRest_draws piece middle tries
  refine ⟨b, deal_of_attempt hfits (by omega) ?_⟩
  show (placeRest _ (tries + 2)
    (dealRings 1 ⟨[piece], firstBoard 1 (some middle), draws⟩).pending
    (dealRings 1 ⟨[piece], firstBoard 1 (some middle), draws⟩).board
    (dealRings 1 ⟨[piece], firstBoard 1 (some middle), draws⟩).gen).1 = some b
  rw [dealRings_draws, hb]

def salt : Piece := ⟨"relay", "salt"⟩

def fire : Piece := ⟨"relay", "fire"⟩

/-- Fire is dealt around salt, on a board of the given radius. -/
def saltAndFire (radius : Nat) : Definition :=
  ⟨⟨Catalog.empty "relay", Board.empty radius⟩, ⟨[]⟩, .const (.bool true), radius, some salt,
    Table.ofList [(fire, 1)]⟩

theorem pieceBank_saltAndFire (radius : Nat) : (saltAndFire radius).pieceBank = [fire] := by
  have hentries : (saltAndFire radius).bank.entries = [(fire, 1)] := rfl
  rw [Definition.pieceBank, hentries, List.mergeSort_singleton]
  rfl

/-- Salt in the middle and fire beside it, and nothing else; but there is no room for fire on a board
of a single cell. -/
theorem laid_out_salt_fire :
    Generator.Reorders Scripted ∧
      (∃ dealt g s, deal [fire] 1 (some salt) defaultAttempts draws = (.ok dealt, g) ∧
        dealt.board.pieces.Perm [salt, fire] ∧ dealt.board.get? origin = some salt ∧
        Session.newGame (saltAndFire 1) draws = (.ok (s, [.boardDealt 1 1 1]), g) ∧
        s.board = dealt.board ∧ s.selected = [] ∧ s.board.pieces.Perm [salt, fire]) ∧
      Session.newGame (saltAndFire 0) draws = (.error (.board (.tooManyPieces 1 0)), draws) := by
  obtain ⟨hdeal, hnew⟩ := deal_lays_out_bank reorders_scripted
  refine ⟨reorders_scripted, ?_, ?_⟩
  · obtain ⟨b, hok⟩ := deal_draws fire salt 998
    obtain ⟨g, hdealt⟩ : ∃ g, deal [fire] 1 (some salt) defaultAttempts draws = (.ok ⟨b, 1⟩, g) :=
      ⟨_, Prod.ext hok rfl⟩
    obtain ⟨hgame, -, -⟩ := hnew (saltAndFire 1)
    rw [pieceBank_saltAndFire] at hgame
    obtain ⟨s, hs, hboard, hfresh⟩ := hgame draws g ⟨b, 1⟩ hdealt
    have hpieces := hfresh.laidOut.pieces_perm
    rw [pieceBank_saltAndFire] at hpieces
    rcases hdeal [fire] 1 (some salt) defaultAttempts draws with
      ⟨dealt, hok', hlaidOut⟩ | ⟨e, herror, -⟩
    · cases hok.symm.trans hok'
      exact ⟨⟨b, 1⟩, g, s, hdealt, hlaidOut.pieces_perm, hlaidOut.center_eq salt rfl, hs, hboard,
        hfresh.selected_eq, hpieces⟩
    · cases hok.symm.trans herror
  · obtain ⟨-, herror, -⟩ := hnew (saltAndFire 0)
    rw [pieceBank_saltAndFire] at herror
    exact (herror draws draws (.tooManyPieces 1 0) rfl).1

end Relay

end HexRules
