import HexRules.Proofs.MetalOrder
import HexRules.Proofs.UnreadBoard
import Mathlib.Logic.Function.Basic

/-!
# Sessions that share a definition

The board that a game is compiled against stands in its definition, but not in its rules and not in
its select condition, which compiling builds without reading it: moved to another board, the
definition is what the document compiles to there.
So a session that shares its definition with others, but not its board, plays as if it had compiled
the game for its board and were alone, however the clicks are interleaved.

    a click of another session, on another board, is not seen            (session_after_of_ne)
    no other session on the board of k → what k reports, and where it ends, is as after its own
      clicks alone                                                       (play_own)
-/

namespace HexRules

namespace Definition

/-- The select condition has the same value or raises the same error at every cell and in every
scope, and so do the rules, which leave the same scope. -/
structure AnswersLike (d d' : Definition) : Prop where
  select : ∀ pos s, d.select.eval (d.context pos) s = d'.select.eval (d'.context pos) s
  rules : ∀ pos candidates s,
    d.rules.test (d.context pos) candidates s = d'.rules.test (d'.context pos) candidates s

theorem AnswersLike.refl (d : Definition) : d.AnswersLike d := ⟨fun _ _ => rfl, fun _ _ _ => rfl⟩

end Definition

namespace Session

/-- What a click answers and what it reports. -/
abbrev Result : Type := Except Error Status × List Event

/-- The results of clicks on some cells, one after the other. -/
def results (s : Session) : List Coord → List Result
  | [] => []
  | c :: rest => ((s.click c).status, (s.click c).events) :: (s.click c).session.results rest

/-- A click changes nothing in a definition but its board. -/
theorem definition_click {d : Definition} {s : Session} (h : s.definition = d.withBoard s.board)
    (c : Coord) : (s.click c).session.definition = d.withBoard (s.click c).session.board := by
  have hwritten : ∀ b : Board Piece, s.definition.withBoard b = d.withBoard b := fun b => by
    rw [h]
    rfl
  have hcases := s.clicksTo_click c
  generalize s.click c = r at hcases
  cases hcases with
  | tested p o hc hp hselect ho =>
    cases o with
    | success m =>
      rw [clickOutcome]
      split
      · exact hwritten _
      · exact hwritten _
    | pending => exact h
    | failure => exact h
  | _ => exact h

end Session

/-! ## Rooms -/

open Session

/-- Sessions of one definition: the boards, the one that each session plays on, and what each has
selected. -/
structure Room (ι κ : Type) where
  boards : ι → Board Piece
  seat : κ → ι
  selected : κ → List Coord

/-- What belongs to one of the sessions. -/
def own {κ α : Type} [DecidableEq κ] (k : κ) (xs : List (κ × α)) : List α :=
  xs.filterMap fun x => if x.1 = k then some x.2 else none

theorem own_cons_self {κ α : Type} [DecidableEq κ] (k : κ) (x : α) (xs : List (κ × α)) :
    own k ((k, x) :: xs) = x :: own k xs := by
  simp [own]

theorem own_cons_of_ne {κ α : Type} [DecidableEq κ] {j k : κ} (h : j ≠ k) (x : α)
    (xs : List (κ × α)) : own k ((j, x) :: xs) = own k xs := by
  simp [own, h]

namespace Room

variable {ι κ : Type}

/-- A session as it is, of a definition moved to the board that it plays on. -/
def session (r : Room ι κ) (d : Definition) (k : κ) : Session :=
  ⟨d.withBoard (r.boards (r.seat k)), r.selected k⟩

variable [DecidableEq ι] [DecidableEq κ]

/-- The room after a click in a session: its board has been played on, its selection has changed. -/
def after (r : Room ι κ) (d : Definition) (k : κ) (c : Coord) : Room ι κ :=
  let s := ((r.session d k).click c).session
  { r with
    boards := Function.update r.boards (r.seat k) s.board
    selected := Function.update r.selected k s.selected }

/-- Clicks one after the other, each in its session: their results, and the room after them. -/
def play (r : Room ι κ) (d : Definition) : List (κ × Coord) → List (κ × Result) × Room ι κ
  | [] => ([], r)
  | (k, c) :: rest =>
    let clicked := (r.session d k).click c
    let others := (r.after d k c).play d rest
    ((k, clicked.status, clicked.events) :: others.1, others.2)

variable {r : Room ι κ} {d : Definition} {j k : κ}

theorem session_after_self (c : Coord) :
    (r.after d k c).session d k = ((r.session d k).click c).session := by
  have hdefinition : ((r.session d k).click c).session.definition =
      d.withBoard ((r.session d k).click c).session.board := definition_click rfl c
  rw [session, after]
  simp only [Function.update_self]
  rw [← hdefinition]

/-- On another board nothing has changed. -/
theorem session_after_of_ne (hjk : j ≠ k) (hseat : r.seat j ≠ r.seat k) (c : Coord) :
    (r.after d j c).session d k = r.session d k := by
  rw [session, session, after]
  simp only [Function.update_of_ne hjk.symm, Function.update_of_ne hseat.symm]

/-- The induction is on the clicks: one of the session itself it takes as it would alone, and one of
another session leaves it as it was. -/
theorem play_own (hseat : ∀ j, j ≠ k → r.seat j ≠ r.seat k) (cs : List (κ × Coord)) :
    own k (r.play d cs).1 = (r.session d k).results (own k cs) ∧
      (r.play d cs).2.session d k = (r.session d k).clicks (own k cs) := by
  induction cs generalizing r with
  | nil => exact ⟨rfl, rfl⟩
  | cons head rest ih =>
    obtain ⟨j, c⟩ := head
    obtain ⟨hresults, hend⟩ := ih (r := r.after d j c) hseat
    by_cases hjk : j = k
    · subst hjk
      rw [session_after_self] at hresults hend
      rw [play, own_cons_self, own_cons_self, hresults, hend]
      exact ⟨rfl, rfl⟩
    · rw [session_after_of_ne hjk (hseat j hjk)] at hresults hend
      rw [play, own_cons_of_ne hjk, own_cons_of_ne hjk]
      exact ⟨hresults, hend⟩

end Room

open Definition

/-- **Rules capture no board.**  Take any functions and predicates, a document and a board.  Where
the document does not compile against the board, it raises the same error against every other one.
Where it does, the definition moved to another board answers like the one that is compiled there.
And when sessions share the definition, then in a session that is alone on its board the clicks in
all of them, in any order, have the results and come to the end that its own clicks alone have in a
session of the definition that is compiled against its board. -/
theorem rules_capture_no_board (functions : Registry FunctionBuilder)
    (predicates : Registry PredicateKind) (doc : GameDocument) (a : Board Piece) :
    (∀ e, compileOn functions predicates a doc = .error e →
      ∀ b, compileOn functions predicates b doc = .error e) ∧
    ∀ d, compileOn functions predicates a doc = .ok d →
      (∀ b, ∃ d', compileOn functions predicates b doc = .ok d' ∧ (d.withBoard b).AnswersLike d') ∧
      ∀ {ι κ : Type} [DecidableEq ι] [DecidableEq κ] (r : Room ι κ) (cs : List (κ × Coord)) (k : κ),
        (∀ j, j ≠ k → r.seat j ≠ r.seat k) →
          ∃ d', compileOn functions predicates (r.boards (r.seat k)) doc = .ok d' ∧
            own k (r.play d cs).1 = (r.session d' k).results (own k cs) ∧
            (r.play d cs).2.session d k = (r.session d' k).clicks (own k cs) := by
  refine ⟨fun e he b => compileOn_error he, fun d hd => ⟨fun b => ?_, ?_⟩⟩
  · exact ⟨d.withBoard b, compileOn_withBoard hd, AnswersLike.refl _⟩
  · intro ι κ _ _ r cs k hseat
    have hmoved : r.session (d.withBoard (r.boards (r.seat k))) k = r.session d k := rfl
    obtain ⟨hresults, hend⟩ := Room.play_own (d := d) hseat cs
    exact ⟨d.withBoard (r.boards (r.seat k)), compileOn_withBoard hd, hmoved ▸ hresults,
      hmoved ▸ hend⟩

namespace Games

open Coord Relay

/-- Two boards, on each of which a session has begun. -/
def twoBoards : Room Bool Bool := ⟨fun i => cond i tinBoard (Board.empty 1), id, fun _ => []⟩

/-- Tin is clicked and then quicksilver, and in between a cell of the other board, which is empty.
The pair goes all the same. -/
theorem tin_clicked_beside_empty_board : ∃ d, compile alchemy = .ok d ∧
    (∃ d', compileOn builtinFunctions builtinPredicates tinBoard alchemy = .ok d' ∧
      (d.withBoard tinBoard).AnswersLike d') ∧
    (own true (twoBoards.play d [(true, east), (false, origin), (true, origin)]).1).map Prod.fst =
      [.ok .pending, .ok .success] := by
  obtain ⟨d, hd, hfollows⟩ := exists_follows_alchemy
  obtain ⟨-, hcompiled⟩ :=
    rules_capture_no_board builtinFunctions builtinPredicates alchemy (Board.empty alchemy.radius)
  obtain ⟨hanswers, hshared⟩ := hcompiled d hd
  obtain ⟨d', hd', hresults, -⟩ :=
    hshared twoBoards [(true, east), (false, origin), (true, origin)] true fun _ h => h
  obtain ⟨-, hstatus, -⟩ := click_origin hfollows
  have hsession : twoBoards.session d' true = tinSession d [] := by
    cases Except.ok.inj ((compileOn_withBoard hd).symm.trans hd')
    rfl
  have halone : (twoBoards.session d' true).results [east, origin] =
      [(.ok .pending, []), (.ok .success, ((tinSession d [east]).click origin).events)] := by
    rw [hsession, results, click_east hfollows, results, hstatus]
    rfl
  refine ⟨d, hd, hanswers tinBoard, ?_⟩
  rw [hresults]
  exact congrArg (List.map Prod.fst) halone

end Games

end HexRules
