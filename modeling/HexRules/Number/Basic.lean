import HexRules.Number.Decimal

/-!
# Numbers of rules

A number is an integer of any size or a floating-point number.  The two forms are told apart by
how they print, not by what they equal: numbers are compared by their exact values.  The infinities
are numbers; there is no NaN, which would not compare, and no text that holds one is read.
-/

namespace HexRules

inductive Number
  | int (value : Int)
  | float (value : Binary64)
  deriving DecidableEq, Repr

namespace Number

/-- Where a number stands among all: the infinities outside, the rest by exact value. -/
def key : Number → Int × Rat
  | int n => (0, (n : Rat))
  | float x => x.key

/-- Equal in value, whatever the form. -/
def same (a b : Number) : Bool := a.key == b.key

/-- Less in value. -/
def lt (a b : Number) : Bool :=
  a.key.1 < b.key.1 || (a.key.1 == b.key.1 && a.key.2 < b.key.2)

/-- The exact integer that a number is, if it is one. -/
def toInt? : Number → Option Int
  | int n => some n
  | float x => x.toInt?

def text : Number → String
  | int n => toString n
  | float x => x.text NumberFormat.standard

end Number

end HexRules
