import HexRules.Directory
import HexRules.Document.Problem
import HexRules.Eval.Value
import HexRules.Hex.Board
import HexRules.Json.Printer

/-!
# Errors

Every way in which an operation can fail is a case of `CompileError`, `EvalError`, `BoardError` or
`Error`; the wording is in the `message` functions and nowhere else.
-/

namespace HexRules

/-- The tables of a game in which a name is looked up. -/
inductive EntryKind
  | piece
  | tag
  | mapping
  deriving DecidableEq, Repr

def EntryKind.text : EntryKind → String
  | piece => "node"
  | tag => "tag"
  | mapping => "mapping"

/-- Why a rule, an expression or a game is not compiled. -/
inductive CompileError
  | badIdentifier (text : String)
  | unknown (kind : EntryKind) (name : String)
  | unknownFunction (id : Identifier)
  | resultCount (slots results : Nat)
  | missingType
  | typeNotText (value : Json)
  | missingKey (key : String)
  | needsValues (type : String)
  | valuesNotArray
  | mappingNotText (value : Json)
  | needsField (type key : String)
  | fieldNotText (key : String) (value : Json)
  | inputType (value : Json)
  /-- A function is defined through itself. -/
  | circular (id : Identifier)
  | invalid (document : DocumentKind) (problems : List Problem)

def CompileError.message : CompileError → String
  | badIdentifier text => "Bad identifier '" ++ text ++ "'"
  | unknown kind name => "No such " ++ kind.text ++ " as '" ++ name ++ "' exists"
  | unknownFunction id => "No such function with identifier '" ++ id.text ++ "'"
  | resultCount slots results =>
    "Rule has " ++ toString slots ++ " input slot(s) but " ++ toString results ++
      " result expression(s)"
  | missingType => "Missing type in condition object"
  | typeNotText value => "Type of condition object " ++ value.quoted ++ " isn't a string"
  | missingKey key => "Missing " ++ key ++ " in condition object"
  | needsValues type => type ++ " needs a values array"
  | valuesNotArray => "values must be an array"
  | mappingNotText value => "lookup needs a mapping name, got " ++ value.quoted
  | needsField type key => type ++ " needs a '" ++ key ++ "' field"
  | fieldNotText key value => "Field '" ++ key ++ "' must be a string, got " ++ value.quoted
  | inputType value => "Input object needs a string type, got " ++ value.quoted
  | circular id => "Function '" ++ id.text ++ "' is defined through itself"
  | invalid document _ => "Invalid " ++ document.text ++ " document"

/-- Why an operation fails. -/
inductive Error
  | compile (cause : CompileError)
  | eval (cause : EvalError)
  | board (cause : BoardError)
  /-- A builder is already registered under an identifier. -/
  | taken (registry : String) (id : Identifier)
  | gameNotFound (id : String)
  /-- The file at a path is not read. -/
  | file (cause : FileError) (path : String)
  | badJson
  | integerTooLong
  | negativeSeed
  /-- A number is to be drawn below a bound that leaves none. -/
  | emptyRange

/-- The wording of an error; errors that come from outside the rules have none of their own. -/
def Error.message? : Error → Option String
  | compile cause => some cause.message
  | eval cause => some cause.message
  | board cause => some cause.message
  | taken registry id =>
    some ("Builder already registered for " ++ registry ++ " '" ++ id.text ++ "'")
  | gameNotFound id => some ("Game '" ++ id ++ "' not found")
  | file _ _ | badJson | integerTooLong | negativeSeed | emptyRange => none

/-! ## Coded errors -/

/-- The families of board and selection errors that carry a code. -/
inductive ErrorFamily
  | general
  | selection
  | deal
  deriving DecidableEq, Repr

def ErrorFamily.code : ErrorFamily → String
  | general => "ERR_MOFANG"
  | selection => "ERR_ILLEGAL_SELECTION"
  | deal => "ERR_BOARD_DEAL"

/-- A coded error carries its code and its message. -/
structure ErrorDetails where
  code : String
  message : String
  deriving DecidableEq, Repr

def ErrorFamily.details (family : ErrorFamily) (message : String) : ErrorDetails :=
  ⟨family.code, message⟩

/-- The family of a board error, if it belongs to one. -/
def BoardError.family? : BoardError → Option ErrorFamily
  | negativeRadius => none
  | outside _ => some .selection
  | tooManyPieces _ _ | gaveUp _ _ => some .deal

end HexRules
