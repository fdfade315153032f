import HexRules.Proofs.ChainMatch

/-!
# What expressions and rules yield

The pieces in a value come from what the expression reads: pieces written in it, values of the
tables that it looks up, and pieces in the values bound to its names.  The only names that it can
miss are its own.  `Supplied` says of what is read that its pieces are among some known ones, and its
missing names among some names.

    Supplied s known missing e.names e.pieces →
      Ends (Value.Over known) (EvalError.Blames missing) (e.eval ctx s)  (eval_ends)

A rule ends as its guards and results do: it raises what one of them raises, and replaces pieces by
what its results yield in the scope that the match leaves.

    the walk ends with errors in `Q`, and the results of a match end in `R` or `Q` →
      a test of the rule ends with replacements in `R` or an error in `Q` (test_ends)
-/

namespace HexRules

/-! ## Pieces -/

mutual

/-- The pieces in a value, in arrays at any depth. -/
def Value.pieces : Value → List Piece
  | .bool _ => []
  | .number _ => []
  | .piece p => p.toList
  | .array items => Value.piecesOf items

def Value.piecesOf : List Value → List Piece
  | [] => []
  | v :: rest => Value.pieces v ++ Value.piecesOf rest

end

namespace Expression

mutual

/-- The pieces that are written in an expression, and the values of the tables that it looks up. -/
def pieces : Expression → List Piece
  | const v => v.pieces
  | binding _ => []
  | array items => piecesOf items
  | branch cond whenTrue whenFalse => pieces cond ++ (pieces whenTrue ++ pieces whenFalse)
  | all operands => piecesOf operands
  | any operands => piecesOf operands
  | equal operands => piecesOf operands
  | openRun length => pieces length
  | lookup table key => pieces key ++ table.entries.map Prod.snd
  | onBoard piece => pieces piece

def piecesOf : List Expression → List Piece
  | [] => []
  | e :: rest => pieces e ++ piecesOf rest

end

end Expression

/-- Only known pieces are in the value. -/
def Value.Over (known : Piece → Prop) (v : Value) : Prop := ∀ p ∈ v.pieces, known p

/-- A name that the error says is not bound is one that may be missing. -/
def EvalError.Blames (missing : String → Prop) (e : EvalError) : Prop :=
  ∀ n, e = .unbound n → missing n

/-- Of some names and pieces: what is bound to the names has known pieces only, those that are not
bound may be missing, and the pieces are known. -/
structure Supplied (s : Scope) (known : Piece → Prop) (missing : String → Prop)
    (names : List String) (pieces : List Piece) : Prop where
  bound : ∀ n ∈ names, ∀ v, s.get? n = some v → v.Over known
  unbound : ∀ n ∈ names, s.get? n = none → missing n
  written : ∀ p ∈ pieces, known p

variable {s : Scope} {known : Piece → Prop} {missing : String → Prop} {names names' : List String}
  {pieces pieces' : List Piece}

theorem Supplied.left (h : Supplied s known missing (names ++ names') (pieces ++ pieces')) :
    Supplied s known missing names pieces :=
  ⟨fun n hn => h.bound n (List.mem_append_left _ hn),
    fun n hn => h.unbound n (List.mem_append_left _ hn),
    fun p hp => h.written p (List.mem_append_left _ hp)⟩

theorem Supplied.right (h : Supplied s known missing (names ++ names') (pieces ++ pieces')) :
    Supplied s known missing names' pieces' :=
  ⟨fun n hn => h.bound n (List.mem_append_right _ hn),
    fun n hn => h.unbound n (List.mem_append_right _ hn),
    fun p hp => h.written p (List.mem_append_right _ hp)⟩

/-! ## Coercion -/

namespace Value

theorem ends_toBool (v : Value) : Ends (fun _ => True) (EvalError.Blames missing) v.toBool := by
  cases v with
  | bool b => trivial
  | _ => exact fun n hn => nomatch hn

theorem ends_toInt (v : Value) : Ends (fun _ => True) (EvalError.Blames missing) v.toInt := by
  cases v with
  | number n =>
    rw [toInt]
    split
    · trivial
    · exact fun n hn => nomatch hn
  | _ => exact fun n hn => nomatch hn

theorem ends_toPiece {v : Value} (h : v.Over known) :
    Ends (fun q => ∀ p ∈ q, known p) (EvalError.Blames missing) v.toPiece := by
  cases v with
  | piece q => exact fun p hp => h p (Option.mem_toList.2 hp)
  | _ => exact fun n hn => nomatch hn

theorem over_piece {q : Option Piece} (h : ∀ p ∈ q, known p) : (piece q).Over known :=
  fun p hp => h p (Option.mem_toList.1 hp)

theorem over_bool (b : Bool) : (bool b).Over known := fun _ hp => nomatch hp

theorem over_array {vs : List Value} (h : ∀ v ∈ vs, v.Over known) : (array vs).Over known := by
  intro p hp
  rw [pieces] at hp
  induction vs with
  | nil => cases hp
  | cons v rest ih =>
    obtain ⟨hv, hrest⟩ := List.forall_mem_cons.1 h
    rcases List.mem_append.1 hp with hp | hp
    · exact hv p hp
    · exact ih hrest hp

end Value

/-! ## Evaluation -/

namespace Expression

theorem over_lookupPiece {table : Table Piece Piece} {q : Option Piece}
    (h : ∀ p ∈ table.entries.map Prod.snd, known p) : (lookupPiece table q).Over known := by
  cases q with
  | none => exact fun _ hp => nomatch hp
  | some k =>
    refine Value.over_piece fun p hp => h p ?_
    exact List.mem_map.2 ⟨(k, p), (table.get?_eq_some_iff k p).1 hp, rfl⟩

variable {ctx : Context}

mutual

theorem eval_ends (e : Expression) (h : Supplied s known missing e.names e.pieces) :
    Ends (Value.Over known) (EvalError.Blames missing) (e.eval ctx s) := by
  cases e with
  | const v => exact h.written
  | binding n =>
    have hn : n ∈ (binding n).names := List.mem_singleton_self n
    rw [eval]
    split
    · rename_i v hv
      exact h.bound n hn v hv
    · rename_i hv
      intro m hm
      cases hm
      exact h.unbound n hn hv
  | array items =>
    rw [eval]
    exact (evalItems_ends items h).bind fun vs hvs => Value.over_array hvs
  | branch cond whenTrue whenFalse =>
    rw [eval]
    refine (eval_ends cond h.left).bind fun v _ => v.ends_toBool.bind fun b _ => ?_
    cases b with
    | true => exact eval_ends whenTrue h.right.left
    | false => exact eval_ends whenFalse h.right.right
  | all operands =>
    rw [eval]
    exact evalAll_ends operands h
  | any operands =>
    rw [eval]
    exact evalAny_ends operands h
  | equal operands =>
    rw [eval]
    exact evalEqual_ends none operands h
  | openRun length =>
    rw [eval]
    exact (eval_ends length h).bind fun v _ => v.ends_toInt.bind fun i _ => Value.over_bool _
  | lookup table key =>
    have hkey : Supplied s known missing key.names key.pieces :=
      ⟨h.bound, h.unbound, fun p hp => h.written p (List.mem_append_left _ hp)⟩
    rw [eval]
    refine (eval_ends key hkey).bind fun v hv => (Value.ends_toPiece hv).bind fun q _ => ?_
    exact over_lookupPiece fun p hp => h.written p (List.mem_append_right _ hp)
  | onBoard piece =>
    rw [eval]
    exact (eval_ends piece h).bind fun v hv =>
      (Value.ends_toPiece hv).bind fun q _ => Value.over_bool _

theorem evalItems_ends (es : List Expression)
    (h : Supplied s known missing (namesOf es) (piecesOf es)) :
    Ends (fun vs => ∀ v ∈ vs, v.Over known) (EvalError.Blames missing) (evalItems ctx s es) := by
  cases es with
  | nil => exact fun v hv => nomatch hv
  | cons e rest =>
    rw [evalItems]
    exact (eval_ends e h.left).bind fun v hv => (evalItems_ends rest h.right).bind fun vs hvs =>
      List.forall_mem_cons.2 ⟨hv, hvs⟩

theorem evalAll_ends (es : List Expression)
    (h : Supplied s known missing (namesOf es) (piecesOf es)) :
    Ends (Value.Over known) (EvalError.Blames missing) (evalAll ctx s es) := by
  cases es with
  | nil => exact Value.over_bool true
  | cons e rest =>
    rw [evalAll]
    refine (eval_ends e h.left).bind fun v _ => v.ends_toBool.bind fun b _ => ?_
    cases b with
    | true => exact evalAll_ends rest h.right
    | false => exact Value.over_bool false

theorem evalAny_ends (es : List Expression)
    (h : Supplied s known missing (namesOf es) (piecesOf es)) :
    Ends (Value.Over known) (EvalError.Blames missing) (evalAny ctx s es) := by
  cases es with
  | nil => exact Value.over_bool false
  | cons e rest =>
    rw [evalAny]
    refine (eval_ends e h.left).bind fun v _ => v.ends_toBool.bind fun b _ => ?_
    cases b with
    | true => exact Value.over_bool true
    | false => exact evalAny_ends rest h.right

theorem evalEqual_ends (first : Option Value) (es : List Expression)
    (h : Supplied s known missing (namesOf es) (piecesOf es)) :
    Ends (Value.Over known) (EvalError.Blames missing) (evalEqual ctx s first es) := by
  cases es with
  | nil => cases first <;> exact Value.over_bool true
  | cons e rest =>
    cases first with
    | none =>
      rw [evalEqual]
      exact (eval_ends e h.left).bind fun v _ => evalEqual_ends (some v) rest h.right
    | some first =>
      rw [evalEqual]
      refine (eval_ends e h.left).bind fun v _ => ?_
      split
      · exact evalEqual_ends (some first) rest h.right
      · exact Value.over_bool false

end

theorem test_ends (e : Expression) (h : Supplied s known missing e.names e.pieces) :
    Ends (fun _ => True) (EvalError.Blames missing) (e.test ctx s) :=
  (eval_ends e h).bind fun v _ => v.ends_toBool

theorem replacement_ends (e : Expression) (h : Supplied s known missing e.names e.pieces) :
    Ends (fun q => ∀ p ∈ q, known p) (EvalError.Blames missing) (e.replacement ctx s) :=
  (eval_ends e h).bind fun _ hv => Value.ends_toPiece hv

end Expression

/-! ## Rules -/

namespace Chain

variable {c : Chain} {ctx : Context} {candidates : List Piece} {u : Scope}
  {R : Option Piece → Prop} {Q : EvalError → Prop}

theorem replacements_ends {matched : List Matched}
    (h : ∀ m ∈ matched, ∀ e ∈ m.link.results, Ends R Q (e.replacement ctx u)) :
    Ends (fun rs => ∀ r ∈ rs, R r.2) Q (replacements ctx u matched) := by
  have hparts : Ends (fun parts => ∀ part ∈ parts, ∀ r ∈ part, R r.2) Q
      (matched.reverse.mapM (linkReplacements ctx u)) := by
    refine Ends.mapM fun m hm => Ends.mapM fun slot hslot => ?_
    exact (h m (List.mem_reverse.1 hm) slot.2 (List.of_mem_zip hslot).2).bind fun p hp => hp
  refine hparts.bind fun parts hall r hr => ?_
  obtain ⟨part, hpart, hr⟩ := List.mem_flatten.1 hr
  exact hall part hpart r hr

/-- The results are evaluated only after all links have matched. -/
theorem test_ends
    (hwalk : Ends (fun _ => True) Q
      (walk ctx c.links (candidates.zipIdx.map Prod.swap) s.push).1)
    (hresults : ∀ matched u,
      Passes ctx c.links (candidates.zipIdx.map Prod.swap) s.push matched u →
        ∀ l ∈ c.links, ∀ e ∈ l.results, Ends R Q (e.replacement ctx u)) :
    Ends (fun o => ∀ rs, o = .success rs → ∀ r ∈ rs, R r.2) Q (c.test ctx candidates s).1 := by
  show Ends _ Q (c.matchAll ctx candidates s.push).1
  unfold matchAll
  cases hw : walk ctx c.links (candidates.zipIdx.map Prod.swap) s.push with
  | mk answer u =>
    rw [hw] at hwalk
    cases answer with
    | error e => exact hwalk
    | ok o =>
      cases o with
      | pending => exact fun rs hrs => nomatch hrs
      | failure => exact fun rs hrs => nomatch hrs
      | success matched =>
        have hpasses := passes_of_walk hw
        have hends : Ends (fun rs => ∀ r ∈ rs, R r.2) Q (replacements ctx u matched) := by
          refine replacements_ends fun m hm => hresults matched u hpasses m.link ?_
          rw [← hpasses.map_link]
          exact List.mem_map_of_mem hm
        simp only
        cases hr : replacements ctx u matched with
        | error e => exact hends.of_error hr
        | ok rs =>
          intro rs' hrs'
          cases hrs'
          exact hends.of_ok hr

end Chain

end HexRules
