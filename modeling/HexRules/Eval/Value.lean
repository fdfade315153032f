import HexRules.Identifier
import HexRules.Number.Basic
import HexRules.Text.Quoted

/-!
# Values

What an expression evaluates to: a truth value, a number, a piece or the empty piece, or an array
of values.  `Value.same` is equality, numbers by exact value at any depth; `Value.lt` orders values
of different kinds by kind, in the order above, the empty piece before every piece and arrays
item by item.  The other comparisons are derived from the two.
-/

namespace HexRules

inductive Value
  | bool (value : Bool)
  | number (value : Number)
  | piece (value : Option Piece)
  | array (items : List Value)

namespace Value

/-- The empty piece. -/
def empty : Value := piece none

instance : Inhabited Value := ⟨empty⟩

/-! ## Comparison -/

/-- The place of a value's kind among the kinds. -/
def kind : Value → Nat
  | bool _ => 0
  | number _ => 1
  | piece _ => 2
  | array _ => 3

mutual

/-- Equality: same kind and equal content, numbers by value. -/
def same : Value → Value → Bool
  | bool a, bool b => a == b
  | number a, number b => a.same b
  | piece a, piece b => decide (a = b)
  | array as, array bs => sameItems as bs
  | _, _ => false

def sameItems : List Value → List Value → Bool
  | [], [] => true
  | a :: as, b :: bs => same a b && sameItems as bs
  | _, _ => false

end

/-- The empty piece first, then pieces in their order. -/
def pieceLt : Option Piece → Option Piece → Bool
  | none, some _ => true
  | some a, some b => a.lt b
  | _, none => false

mutual

/-- By kind, then by content. -/
def lt : Value → Value → Bool
  | bool a, bool b => !a && b
  | number a, number b => a.lt b
  | piece a, piece b => pieceLt a b
  | array as, array bs => ltItems as bs
  | a, b => decide (a.kind < b.kind)

/-- The first items that differ decide; otherwise the shorter list is less. -/
def ltItems : List Value → List Value → Bool
  | [], [] => false
  | [], _ :: _ => true
  | _ :: _, [] => false
  | a :: as, b :: bs => if same a b then ltItems as bs else lt a b

end

def le (a b : Value) : Bool := lt a b || same a b

def gt (a b : Value) : Bool := !lt a b && !same a b

def ge (a b : Value) : Bool := !lt a b

/-- The indices of values in the order of the values; equal values stay in index order. -/
def sortedIndices (vs : List Value) : List Nat :=
  (vs.zipIdx.mergeSort fun a b => !lt b.1 a.1).map Prod.snd

/-! ## Text -/

/-- How a piece is shown inside a value. -/
def pieceText (p : Piece) : String :=
  "DataNode(name=Identifier(namespace=" ++ Text.quoted p.space ++ ", name=" ++
    Text.quoted p.name ++ "))"

mutual

/-- A value as messages show it. -/
def quoted : Value → String
  | bool true => "EvalValue.bool(True)"
  | bool false => "EvalValue.bool(False)"
  | number n => "EvalValue.number(" ++ n.text ++ ")"
  | piece none => "EvalValue.node(None)"
  | piece (some p) => "EvalValue.node(" ++ pieceText p ++ ")"
  | array [] => "EvalValue.array(())"
  | array [v] => "EvalValue.array((" ++ quoted v ++ ",))"
  | array items => "EvalValue.array((" ++ String.intercalate ", " (quotedItems items) ++ "))"

def quotedItems : List Value → List String
  | [] => []
  | v :: rest => quoted v :: quotedItems rest

end

end Value

/-! ## Errors of evaluation -/

/-- The kinds that a value can be asked to be. -/
inductive Expected
  | boolean
  | number
  | integer
  | piece
  | array
  deriving DecidableEq, Repr

def Expected.text : Expected → String
  | boolean => "boolean"
  | number => "number"
  | integer => "integer"
  | piece => "node"
  | array => "array"

/-- Why an expression has no value. -/
inductive EvalError
  | unbound (name : String)
  | wrongKind (expected : Expected) (actual : Value)

def EvalError.message : EvalError → String
  | unbound name => "Binding '" ++ name ++ "' doesn't exist in the current context"
  | wrongKind expected actual => "Expected " ++ expected.text ++ ", got " ++ actual.quoted

namespace Value

/-! ## Coercion -/

def toBool : Value → Except EvalError Bool
  | bool b => .ok b
  | v => .error (.wrongKind .boolean v)

/-- A number counts as an integer when its exact value is one. -/
def toInt : Value → Except EvalError Int
  | number n =>
    match n.toInt? with
    | some i => .ok i
    | none => .error (.wrongKind .integer (number n))
  | v => .error (.wrongKind .number v)

def toPiece : Value → Except EvalError (Option Piece)
  | piece p => .ok p
  | v => .error (.wrongKind .piece v)

def toItems : Value → Except EvalError (List Value)
  | array items => .ok items
  | v => .error (.wrongKind .array v)

end Value

end HexRules
