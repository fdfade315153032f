import HexRules.Proofs.GameTables
import HexRules.Proofs.PieceBalance

/-!
# Progress of the bundled games

Not every match of the bundled games leaves fewer pieces: yin and yang become two creations.  But
then there is one yin less, and nothing becomes yin.  So every click that succeeds lowers the number
of cells that hold a piece, those that hold yin counted twice.

    placed pieces weigh less than those taken, in every reaction of the tables
                                                                         (placed_lt_taken)
    a success lowers `charge`, and every other click keeps the board     (charge_click)
    s.successes cs + charge (s.clicks cs).board ≤ charge s.board         (successes_add_le)
-/

namespace HexRules

/-- Number of the clicks that succeed. -/
def Session.successes (s : Session) : List Coord → Nat
  | [] => 0
  | c :: rest =>
    match (s.click c).status with
    | .ok .success => (s.click c).session.successes rest + 1
    | _ => (s.click c).session.successes rest

namespace Games

open RuleSet Session

/-- Number of cells that hold a piece and number of cells that hold yin, together. -/
def charge (b : Board Piece) : Nat :=
  b.occupied.length + b.coords.countP fun c => b.get? c = some (mofang "yin")

theorem charge_eq (b : Board Piece) :
    charge b = b.pieces.length + b.pieces.count (mofang "yin") := by
  have hcount : b.pieces.count (mofang "yin") =
      b.coords.countP fun c => b.get? c = some (mofang "yin") := by
    rw [Board.pieces, List.count, List.countP_filterMap]
    refine List.countP_congr fun c _ => ?_
    cases b.get? c <;> simp
  rw [charge, b.length_occupied, hcount]

theorem placed_lt_taken : ∀ table ∈ tables, ∀ r ∈ reactionsOf table,
    r.placed.length + r.placed.count (mofang "yin") <
      r.taken.length + r.taken.count (mofang "yin") := by
  decide +kernel

variable {d : Definition} {table : List RuleEntry} {s : Session}

/-- What one click does to the charge. -/
theorem charge_click (h : s.Legal d) (hmem : table ∈ tables) (htable : d.rules.Tabulated table)
    (c : Coord) :
    (s.click c).status = .ok .success ∧ charge (s.click c).session.board < charge s.board ∨
      (s.click c).status ≠ .ok .success ∧ (s.click c).session.board = s.board := by
  rcases h.exchange htable c with ⟨r, hr, hstatus, hexchange⟩ | hkeeps
  · refine .inl ⟨hstatus, ?_⟩
    have hlt := placed_lt_taken table hmem r hr
    have hlen := hexchange.length_eq
    have hcount := hexchange.count_eq (mofang "yin")
    rw [charge_eq, charge_eq]
    omega
  · exact .inr hkeeps

/-- The induction is on the clicks. -/
theorem successes_add_le (h : s.Legal d) (hmem : table ∈ tables)
    (htable : d.rules.Tabulated table) (cs : List Coord) :
    s.successes cs + charge (s.clicks cs).board ≤ charge s.board := by
  induction cs generalizing s with
  | nil => exact Nat.le_of_eq (Nat.zero_add _)
  | cons c rest ih =>
    have hrest := ih (h.click c)
    rw [successes, clicks]
    rcases charge_click h hmem htable c with ⟨hstatus, hlt⟩ | ⟨hstatus, hboard⟩
    · simp only [hstatus]
      omega
    · rw [hboard] at hrest
      split
      · contradiction
      · exact hrest

end Games

/-- **Every match uses something up.**  In a session of a bundled game, on any board and after any
clicks, a click that succeeds lowers the number of cells that hold a piece plus the number of cells
that hold yin, and every other click keeps the board.  So however long it is, a run has at most as
many successes as that number was at its start. -/
theorem matches_use_up : ∀ game ∈ Games.bundled, ∃ d, Definition.compile game.2 = .ok d ∧
    ∀ (b : Board Piece) (cs : List Coord) (s : Session), (Session.onBoard d b).clicks cs = s →
      (∀ c, ((s.click c).status = .ok .success →
          Games.charge (s.click c).session.board < Games.charge s.board) ∧
        ((s.click c).status ≠ .ok .success → (s.click c).session.board = s.board)) ∧
      (Session.onBoard d b).successes cs ≤ Games.charge b := by
  intro game hgame
  obtain ⟨d, hd, table, hmem, htable⟩ := Games.exists_tabulated hgame
  refine ⟨d, hd, fun b cs s hs => ⟨fun c => ?_, ?_⟩⟩
  · have hlegal : s.Legal d := hs ▸ (Session.legal_onBoard d b).clicks cs
    rcases Games.charge_click hlegal hmem htable c with ⟨hstatus, hlt⟩ | ⟨hstatus, hboard⟩
    · exact ⟨fun _ => hlt, fun hne => absurd hstatus hne⟩
    · exact ⟨fun hok => absurd hok hstatus, fun _ => hboard⟩
  · have hrun := Games.successes_add_le (Session.legal_onBoard d b) hmem htable cs
    exact Nat.le_trans (Nat.le_add_right _ _) hrun

namespace Games

theorem inBounds_origin_empty : (Board.empty 1 : Board Piece).inBounds Coord.origin = true :=
  Board.inBounds_origin _

/-- Gold and nothing else. -/
def lastGold : Board Piece :=
  (Board.empty 1).put Coord.origin (some (sigmar "gold")) inBounds_origin_empty

theorem get?_lastGold (c : Coord) :
    lastGold.get? c = if c = Coord.origin then some (sigmar "gold") else none := by
  rw [lastGold, Board.get?_put, Board.get?_empty]

theorem occupiedNeighbors_lastGold (catalog : Catalog) :
    Context.occupiedNeighbors ⟨⟨catalog, lastGold⟩, Coord.origin⟩ = List.replicate 6 false := by
  simp only [Context.occupiedNeighbors, get?_lastGold]
  rfl

theorem pieces_lastGold : lastGold.pieces = [sigmar "gold"] := by
  have hperm := (Board.empty 1).perm_pieces_put Coord.origin (some (sigmar "gold"))
    (Board.inBounds_origin _)
  rw [Board.get?_empty, Board.pieces_empty] at hperm
  exact List.perm_singleton.1 hperm

/-- No neighbour of gold holds a piece, and there is no silver. -/
theorem freeMetal_lastGold (catalog : Catalog) (s : Scope)
    (hself : s.get? "self" = some (.piece (some (sigmar "gold")))) :
    freeMetal.test ⟨⟨catalog, lastGold⟩, Coord.origin⟩ s = .ok true := by
  have hrun : Context.openRunLength ⟨⟨catalog, lastGold⟩, Coord.origin⟩ = 6 := by
    rw [Context.openRunLength, occupiedNeighbors_lastGold]
    rfl
  have hbelow : downgrades.get? (sigmar "gold") = some (sigmar "silver") := by decide +kernel
  have hsilver : Expression.boardHolds ⟨catalog, lastGold⟩ (some (sigmar "silver")) = false := by
    rw [Expression.boardHolds, Game.onBoard, List.any_eq_false]
    intro c _
    rw [get?_lastGold]
    split <;> decide
  rw [test_freeMetal hself, hrun, hbelow, hsilver]
  rfl

/-- With no other metal on the board gold can be taken. -/
theorem success_lastGold {d : Definition} (h : Definition.compile alchemy = .ok d) :
    ((Session.onBoard d lastGold).click Coord.origin).status = .ok .success := by
  have hp : (Session.onBoard d lastGold).board.get? Coord.origin = some (sigmar "gold") :=
    get?_lastGold Coord.origin
  have hd : d.select = freeMetal := eq_of_map_compile h (select_alchemy _)
  have hselect : (Session.onBoard d lastGold).isSelectable Coord.origin = .ok true := by
    rw [Session.isSelectable, hp]
    show d.select.test ⟨⟨d.game.catalog, lastGold⟩, Coord.origin⟩ _ = .ok true
    rw [hd]
    exact freeMetal_lastGold _ _ rfl
  obtain ⟨d', hd', htable⟩ := exists_tabulated_of_profiles (profiles_alchemy _)
  cases h.symm.trans hd'
  obtain ⟨m, hm⟩ := htable.exists_success (r := cleared [sigmar "gold"]) (by decide)
    ⟨⟨d.game.catalog, lastGold⟩, Coord.origin⟩ Scope.empty
  exact (Session.legal_onBoard d lastGold).status_success List.not_mem_nil hp hselect hm

/-- Gold is cleared, and there is nothing left to succeed with. -/
theorem gold_used_up : ("sigmar", alchemy) ∈ bundled ∧
    ∃ d, Definition.compile alchemy = .ok d ∧ charge lastGold = 1 ∧
      ((Session.onBoard d lastGold).click Coord.origin).status = .ok .success ∧
      charge ((Session.onBoard d lastGold).click Coord.origin).session.board = 0 ∧
      (Session.onBoard d lastGold).successes [Coord.origin] ≤ 1 := by
  have hmem : ("sigmar", alchemy) ∈ bundled := List.mem_cons_self
  have hcharge : charge lastGold = 1 := by
    rw [charge_eq, pieces_lastGold]
    decide
  obtain ⟨d, hd, huse⟩ := matches_use_up _ hmem
  have hstatus := success_lastGold hd
  obtain ⟨hclick, -⟩ := huse lastGold [] _ rfl
  obtain ⟨-, hsuccesses⟩ := huse lastGold [Coord.origin] _ rfl
  have hlt : charge _ < charge lastGold := (hclick Coord.origin).1 hstatus
  rw [hcharge] at hlt hsuccesses
  exact ⟨hmem, d, hd, hcharge, hstatus, Nat.lt_one_iff.1 hlt, hsuccesses⟩

end Games

end HexRules
