/-!
# Problems of documents

Checking a document collects every problem it has, each with the path to the part that has it.
-/

namespace HexRules

/-- What can be wrong with a part of a document. -/
inductive ProblemKind
  | notObject
  | missing
  | unknownField
  | notText
  | emptyText
  | notList
  | emptyList
  | notTable
  | notInteger
  | notIntegerText
  | fraction
  | notFinite
  | integerTooLarge
  | negative
  /-- Too many documents lie around a part. -/
  | tooDeep
  /-- A whole document breaks a rule, stated in words. -/
  | broken (rule : String)
  deriving DecidableEq, Repr

def ProblemKind.name : ProblemKind → String
  | notObject => "model_type"
  | missing => "missing"
  | unknownField => "extra_forbidden"
  | notText => "string_type"
  | emptyText => "string_too_short"
  | notList => "list_type"
  | emptyList => "too_short"
  | notTable => "dict_type"
  | notInteger => "int_type"
  | notIntegerText => "int_parsing"
  | fraction => "int_from_float"
  | notFinite => "finite_number"
  | integerTooLarge => "int_parsing_size"
  | negative => "greater_than_equal"
  | tooDeep => "recursion_depth_exceeded"
  | broken _ => "value_error"

/-- A problem and the path from the document to the part that has it. -/
structure Problem where
  path : List String
  kind : ProblemKind
  deriving DecidableEq, Repr

namespace Problem

def location (p : Problem) : String := String.intercalate "." p.path

/-- By location, then by the name of the kind. -/
def le (a b : Problem) : Bool :=
  a.location < b.location || (a.location = b.location && !(b.kind.name < a.kind.name))

def sort (ps : List Problem) : List Problem := ps.mergeSort le

end Problem

/-- The kinds of documents that are checked. -/
inductive DocumentKind
  | rule
  | game
  deriving DecidableEq, Repr

def DocumentKind.text : DocumentKind → String
  | rule => "change"
  | game => "game"

end HexRules
