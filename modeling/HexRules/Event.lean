import HexRules.Hex.Coord
import HexRules.Matching.Outcome

/-!
# Events

What operations report beside their answers.  `Event.record` is how an event is logged: its level,
the logger it goes to, and its wording.
-/

namespace HexRules

inductive Level
  | debug
  | info
  | warning
  deriving DecidableEq, Repr

namespace Level

def name : Level → String
  | debug => "DEBUG"
  | info => "INFO"
  | warning => "WARNING"

def rank : Level → Int
  | debug => 10
  | info => 20
  | warning => 30

end Level

structure LogRecord where
  level : Level
  logger : String
  message : String
  deriving DecidableEq, Repr

inductive Event
  /-- A pattern with predicates is long enough to be slow. -/
  | longPattern (slots : Nat)
  | ruleMatched (rule pieces : Nat)
  | gameLoaded (id : String) (pieces rules : Nat)
  | boardDealt (pieces : Nat) (radius : Int) (attempts : Nat)
  | ruleApplied (cells : List Coord)
  | loggingReady
  | gameDealt (name : String) (pieces : Nat)
  | moved (number : Nat) (cells : List Coord) (status : Status)
  | gameOver (moves left : Nat) (won : Bool)

namespace Event

def record : Event → LogRecord
  | longPattern slots =>
    ⟨.warning, "mofang_rules.change", "Complex pattern with " ++ toString slots ++
      " inputs; matching is exponential in pattern length"⟩
  | ruleMatched rule pieces =>
    ⟨.debug, "mofang_rules.change",
      "Rule " ++ toString rule ++ " matched " ++ toString pieces ++ " piece(s)"⟩
  | gameLoaded id pieces rules =>
    ⟨.debug, "mofang_rules.loader", "Loaded game " ++ id ++ ": " ++ toString pieces ++
      " piece type(s), " ++ toString rules ++ " rule(s)"⟩
  | boardDealt pieces radius attempts =>
    ⟨.debug, "mofang_core.board", "Dealt " ++ toString pieces ++ " pieces on radius " ++
      toString radius ++ " after " ++ toString attempts ++ " attempt(s)"⟩
  | ruleApplied cells =>
    ⟨.debug, "mofang_rules.session", "Applied rule to " ++ Coord.listText cells⟩
  | loggingReady => ⟨.debug, "mofang", "Logging initialized."⟩
  | gameDealt name pieces =>
    ⟨.info, "mofang", "Dealt " ++ name ++ " with " ++ toString pieces ++ " pieces"⟩
  | moved number cells status =>
    ⟨.info, "mofang", "Move " ++ toString number ++ ": " ++ Coord.listText cells ++ " -> " ++
      status.text⟩
  | gameOver moves left won =>
    ⟨.info, "mofang", "Finished after " ++ toString moves ++ " moves; " ++ toString left ++
      " pieces left, won=" ++ (if won then "True" else "False")⟩

end Event

end HexRules
