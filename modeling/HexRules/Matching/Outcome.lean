/-!
# Outcomes of matching

A selection of pieces is matched, or could grow into a match, or neither.
-/

namespace HexRules

inductive Outcome (α : Type)
  | success (value : α)
  /-- More pieces are needed. -/
  | pending
  | failure
  deriving DecidableEq, Repr

/-- An outcome without its value. -/
inductive Status
  | success
  | pending
  | failure
  deriving DecidableEq, Repr

def Status.text : Status → String
  | success => "success"
  | pending => "continue"
  | failure => "failure"

namespace Outcome

variable {α : Type}

def status : Outcome α → Status
  | success _ => .success
  | pending => .pending
  | failure => .failure

def value? : Outcome α → Option α
  | success a => some a
  | _ => none

/-- A success, or more pieces are needed. -/
def isValid : Outcome α → Bool
  | failure => false
  | _ => true

end Outcome

end HexRules
