import HexRules.Proofs.FoundMoves

/-!
# Games that play themselves

A move that is found succeeds, and a success uses something up.  So a game that plays itself goes on
until the board is empty or no move is found, and the limit on its moves is never what ends it.

    Plays s moves t, moves.length ≤ limit → playFrom limit makes these moves and reports them
                                                                         (Plays.playFrom_eq)
    s.Legal d, s.selected = [] → there is such a game, of no more moves than `charge s.board`
                                                                         (exists_plays)
-/

namespace HexRules

theorem Session.successes_pos_of_mem {s : Session} {cells : List Coord}
    (h : .ok .success ∈ s.statuses cells) : 0 < s.successes cells := by
  induction cells generalizing s with
  | nil => cases h
  | cons c rest ih =>
    rw [successes]
    split
    · exact Nat.succ_pos _
    · rename_i hstatus
      rcases List.mem_cons.1 h with h | h
      · exact absurd h.symm hstatus
      · exact ih h

namespace Autoplay

open Session Games

/-! ## Games played to their end -/

/-- From `s` the moves that are found are made, one after the other, to `t`, where the game ends. -/
inductive Plays : Session → List (List Coord) → Session → Prop
  | stop {s : Session} (hend : s.isWon = true ∨ findMove s = .ok none) : Plays s [] s
  | move {s t : Session} {cells : List Coord} {moves : List (List Coord)} (hwon : s.isWon = false)
      (hfound : findMove s = .ok (some cells)) (hmakes : s.Makes cells)
      (hrest : Plays (s.clicks cells) moves t) : Plays s (cells :: moves) t

/-- What is reported of moves that succeed, from a number on. -/
def reports (number : Nat) (moves : List (List Coord)) : List Event :=
  (moves.zipIdx number).map fun e => .moved e.2 e.1 .success

variable {d : Definition} {s t : Session} {sheet : Sheet} {cells : List Coord}
  {moves : List (List Coord)}

theorem Plays.ended (h : Plays s moves t) : t.isWon = true ∨ findMove t = .ok none := by
  induction h with
  | stop hend => exact hend
  | move _ _ _ _ ih => exact ih

/-- The status of clicks one after the other is that of the last. -/
theorem clickAll_eq {ends : List Status} (h : s.statuses cells = ends.map .ok) (status : Status) :
    clickAll s status cells = .ok (ends.getLastD status, s.clicks cells) := by
  induction cells generalizing s ends status with
  | nil =>
    cases List.map_eq_nil_iff.1 h.symm
    rfl
  | cons c rest ih =>
    obtain ⟨first, others, rfl, hfirst, hothers⟩ := List.map_eq_cons_iff.1 h.symm
    rw [clickAll, ← hfirst, List.getLastD_cons]
    exact ih hothers.symm first

theorem clickAll_of_makes (h : s.Makes cells) (status : Status) :
    clickAll s status cells = .ok (.success, s.clicks cells) := by
  have hall : s.statuses cells =
      (List.replicate (cells.length - 1) Status.pending ++ [Status.success]).map .ok := by
    rw [List.map_append, List.map_replicate]
    exact h
  rw [clickAll_eq hall, List.getLastD_concat]

/-- The limit is no bound on a game of fewer moves. -/
theorem Plays.playFrom_eq (h : Plays s moves t) {limit : Nat} (hlimit : moves.length ≤ limit)
    (n : Nat) (events : List Event) :
    playFrom limit ⟨n, s, events⟩ =
      .ok ⟨n + moves.length, t, events ++ reports (n + 1) moves⟩ := by
  induction h generalizing limit n events with
  | stop hend =>
    have hevents : events ++ reports (n + 1) [] = events := List.append_nil events
    rw [hevents]
    cases limit with
    | zero => rfl
    | succ limit =>
      rw [playFrom]
      rcases hend with hwon | hnone
      · simp only [hwon, if_true]
        rfl
      · simp only [hnone, ite_self]
        rfl
  | @move s t cells moves hwon hfound hmakes hrest ih =>
    cases limit with
    | zero => cases hlimit
    | succ limit =>
      have hevents : events ++ [.moved (n + 1) cells .success] ++ reports (n + 1 + 1) moves =
          events ++ reports (n + 1) (cells :: moves) := List.append_assoc ..
      have hnumber : n + 1 + moves.length = n + (cells :: moves).length := by
        rw [List.length_cons]
        omega
      rw [playFrom]
      simp only [hwon, hfound, clickAll_of_makes hmakes, if_true]
      rw [if_neg Bool.false_ne_true, ih (Nat.le_of_succ_le_succ hlimit), hevents, hnumber]

theorem charge_clicks_of_makes (hfollows : d.Follows sheet) (hsheet : sheet ∈ sheets)
    (h : s.Legal d) (hmakes : s.Makes cells) :
    charge (s.clicks cells).board < charge s.board := by
  have hpos : 0 < s.successes cells := successes_pos_of_mem hmakes.mem
  have hle := successes_add_le h (table_mem_tables hsheet) hfollows.rules cells
  omega

/-- The induction is on the charge, which every move lowers. -/
theorem exists_plays (hfollows : d.Follows sheet) (hsheet : sheet ∈ sheets) (h : s.Legal d)
    (hnone : s.selected = []) : ∃ moves t, Plays s moves t ∧ moves.length ≤ charge s.board := by
  induction hn : charge s.board using Nat.strongRecOn generalizing s with
  | ind n ih =>
    subst hn
    by_cases hwon : s.isWon = true
    · exact ⟨[], s, .stop (.inl hwon), Nat.zero_le _⟩
    · have hcalm := calm_of_follows h hfollows
      obtain ⟨move, hmove⟩ := exists_findMove hcalm
      cases move with
      | none => exact ⟨[], s, .stop (.inr hmove), Nat.zero_le _⟩
      | some cells =>
        have hmakes := h.makes_of_found hfollows (lenient_of_mem_sheets hsheet) hnone
          (found_of_findMove hcalm hmove)
        have hlt := charge_clicks_of_makes hfollows hsheet h hmakes
        obtain ⟨moves, t, hrest, hlen⟩ :=
          ih _ hlt (h.clicks cells) (h.selected_of_makes hmakes) rfl
        exact ⟨cells :: moves, t, .move (Bool.eq_false_of_not_eq_true hwon) hmove hmakes hrest,
          Nat.lt_of_le_of_lt hlen hlt⟩

theorem charge_le_moveLimit (s : Session) : charge s.board ≤ moveLimit s := by
  have hoccupied : s.board.occupied.length ≤ s.board.coords.length := List.length_filter_le ..
  have hyin := s.board.coords.countP_le_length (p := fun c => s.board.get? c = some (mofang "yin"))
  rw [charge, moveLimit]
  omega

end Autoplay

open Autoplay Session

/-- **What is found can be played.**  In a bundled game, on any board with nothing selected, the
search for a move raises no error, and when it finds one, clicks on its cells are pending up to the
last, which succeeds.  From any board a game that plays itself ends after at most `charge b` moves,
all of them successes, and it ends with the board empty or with no move to be found. -/
theorem found_moves_succeed : ∀ game ∈ Games.bundled, ∃ d, Definition.compile game.2 = .ok d ∧
    ∀ b : Board Piece,
      (∃ move, findMove (onBoard d b) = .ok move ∧ ∀ cells ∈ move, (onBoard d b).Makes cells) ∧
      ∃ moves t, Plays (onBoard d b) moves t ∧ moves.length ≤ Games.charge b ∧
        (t.isWon = true ∨ findMove t = .ok none) ∧
        ∀ name, play name (onBoard d b) =
          .ok (.gameDealt name b.occupied.length :: reports 1 moves ++
            [.gameOver moves.length t.board.occupied.length t.isWon]) := by
  intro game hgame
  obtain ⟨d, hd, sheet, hsheet, hfollows⟩ := Games.exists_follows hgame
  refine ⟨d, hd, fun b => ?_⟩
  have hlegal := legal_onBoard d b
  have hcalm := calm_of_follows hlegal hfollows
  obtain ⟨move, hmove⟩ := exists_findMove hcalm
  obtain ⟨moves, t, hplays, hlen⟩ := exists_plays hfollows hsheet hlegal rfl
  refine ⟨⟨move, hmove, ?_⟩, moves, t, hplays, hlen, hplays.ended, fun name => ?_⟩
  · rintro cells rfl
    exact hlegal.makes_of_found hfollows (Games.lenient_of_mem_sheets hsheet) rfl
      (found_of_findMove hcalm hmove)
  · have hlimit := Nat.le_trans hlen (charge_le_moveLimit (onBoard d b))
    rw [play, hplays.playFrom_eq hlimit, Nat.zero_add]
    rfl

namespace Games

open Coord Relay

theorem occupied_tinBoard : tinBoard.occupied = [origin, east, northEast] := by
  rw [Board.occupied]
  simp only [get?_tinBoard]
  rfl

variable {d : Definition} (hfollows : d.Follows alchemySheet)

include hfollows

/-- All three cells can be clicked, and none of them is a match alone. -/
theorem alone_tinBoard {c : Coord} (hc : c ∈ [origin, east, northEast]) :
    (onBoard d tinBoard).admits c = true ∧ reacts (onBoard d tinBoard) [c] = false := by
  obtain ⟨p, hp, hget⟩ := exists_piece_tinBoard hc
  have hget' : (onBoard d tinBoard).board.get? c = some p := hget
  have hselect : (onBoard d tinBoard).isSelectable c = .ok true :=
    isSelectable_tinSession hfollows [] hc
  have htest : (onBoard d tinBoard).testWith c p = .ok .pending := test_alone hfollows hp _
  have hcalm := calm_of_follows (legal_onBoard d tinBoard) hfollows
  constructor
  · have hprobe : (onBoard d tinBoard).probe c = .ok (some .pending) :=
      (probe_eq_some_iff _ c _).2 ⟨p, hget', hselect, htest⟩
    rw [admits, hprobe]
    rfl
  · refine Bool.eq_false_of_not_eq_true fun hreacts => ?_
    obtain ⟨m, hm⟩ := (accepts_append_iff hget').1
      ((accepts_eq hcalm [c]).trans (congrArg Except.ok hreacts))
    cases htest.symm.trans hm

theorem reacts_tinBoard : reacts (onBoard d tinBoard) [origin, east] = true := by
  have hcandidates : (tinSession d [origin]).candidates = [sigmar "quicksilver"] :=
    List.filterMap_cons_some (get?_tinBoard origin)
  have htest : ∃ m, (tinSession d [origin]).testWith east (sigmar "tin") = .ok (.success m) := by
    rw [testWith, hcandidates]
    have hr : tinReaction ∈ RuleSet.reactionsOf alchemyTable := by decide +kernel
    exact hfollows.rules.exists_success hr _ Scope.empty
  have hget : (tinSession d [origin]).board.get? east = some (sigmar "tin") := get?_tinBoard east
  have haccepts : accepts (onBoard d tinBoard) [origin, east] = .ok true :=
    (accepts_append_iff hget).2 htest
  rw [reacts, haccepts]

theorem findMove_tinBoard : findMove (onBoard d tinBoard) = .ok (some [origin, east]) := by
  have hadmitted : (onBoard d tinBoard).board.occupied.filter (onBoard d tinBoard).admits =
      [origin, east, northEast] :=
    (List.filter_eq_self.2 fun c hc =>
      (alone_tinBoard hfollows (occupied_tinBoard ▸ hc)).1).trans occupied_tinBoard
  have halone : ∀ c ∈ [origin, east, northEast], ¬ reacts (onBoard d tinBoard) [c] = true :=
    fun c hc => Bool.not_eq_true _ ▸ (alone_tinBoard hfollows hc).2
  have hselections : selections [origin, east, northEast] =
      [[origin], [east], [northEast], [origin, east], [origin, northEast], [east, northEast]] := rfl
  rw [findMove_eq_find? (calm_of_follows (legal_onBoard d tinBoard) hfollows), hadmitted,
    hselections, List.find?_cons_of_neg (halone origin (by decide)),
    List.find?_cons_of_neg (halone east (by decide)),
    List.find?_cons_of_neg (halone northEast (by decide)),
    List.find?_cons_of_pos (reacts_tinBoard hfollows)]

omit hfollows

/-- Quicksilver and tin are the first move of a game on that board. -/
theorem quicksilver_tin_played : ("sigmar", alchemy) ∈ bundled ∧
    ∃ d, Definition.compile alchemy = .ok d ∧
      findMove (onBoard d tinBoard) = .ok (some [origin, east]) ∧
      (onBoard d tinBoard).statuses [origin, east] = [.ok .pending, .ok .success] ∧
      ∃ moves t, Plays (onBoard d tinBoard) ([origin, east] :: moves) t ∧
        (t.isWon = true ∨ findMove t = .ok none) ∧
        ∀ name, play name (onBoard d tinBoard) =
          .ok (.gameDealt name 3 :: .moved 1 [origin, east] .success :: reports 2 moves ++
            [.gameOver (moves.length + 1) t.board.occupied.length t.isWon]) := by
  have hmem : ("sigmar", alchemy) ∈ bundled := List.mem_cons_self
  obtain ⟨d, hd, hfollows⟩ := exists_follows_alchemy
  obtain ⟨d', hd', hfound⟩ := found_moves_succeed _ hmem
  cases Except.ok.inj (hd.symm.trans hd')
  obtain ⟨⟨move, hmove, hmakes⟩, moves, t, hplays, -, hended, hplay⟩ := hfound tinBoard
  have htin := findMove_tinBoard hfollows
  cases Except.ok.inj (htin.symm.trans hmove)
  rw [occupied_tinBoard] at hplay
  cases hplays with
  | stop hend =>
    have hempty : tinBoard.isEmpty = false := by
      simp only [Board.isEmpty, get?_tinBoard]
      decide
    rcases hend with hwon | hnone
    · cases hwon.symm.trans hempty
    · cases htin.symm.trans hnone
  | move hwon hnext hdone hrest =>
    cases Except.ok.inj (htin.symm.trans hnext)
    exact ⟨hmem, d, hd, htin, hmakes _ rfl, _, t, .move hwon hnext hdone hrest, hended, hplay⟩

end Games

end HexRules
