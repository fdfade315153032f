import HexRules.Number.Binary64

/-!
# Decimal text of numbers

A finite number is written with the fewest digits that read back to it, and of those with the
ones nearest to it.  `shortest` searches the decimal grids of 1, 2, … digits: if a point of a grid
reads back, so does one of the two neighbours of the number on that grid.
-/

namespace HexRules

/-! ## The digits -/

/-- `digits * 10 ^ exponent`. -/
structure Decimal where
  digits : Nat
  exponent : Int
  deriving DecidableEq, Repr

/-- `num / den / 10 ^ e` as a quotient of natural numbers. -/
def scaleTen (num den : Nat) : Int → Nat × Nat
  | .ofNat e => (num, den * Nat.pow 10 e)
  | .negSucc e => (num * Nat.pow 10 (e + 1), den)

namespace Decimal

def digitCount (n : Nat) : Nat := (Nat.toDigits 10 n).length

/-- The least `k` with `num / den < 10 ^ k`. -/
def magnitude (num den : Nat) : Int :=
  let k : Int := (digitCount num : Int) - (digitCount den : Int)
  let scaled := scaleTen num den k
  if scaled.1 < scaled.2 then k else k + 1

/-- Of the two neighbours of `num / den` on the grid of step `10 ^ e`, the nearer one among those
that `reads` accepts; a tie goes to the even one. -/
def onGrid (reads : Decimal → Bool) (num den : Nat) (e : Int) : Option Decimal :=
  let scaled := scaleTen num den e
  let low : Decimal := ⟨scaled.1 / scaled.2, e⟩
  let high : Decimal := ⟨scaled.1 / scaled.2 + 1, e⟩
  match reads low, reads high with
  | true, true => some (if roundDiv scaled.1 scaled.2 = low.digits then low else high)
  | true, false => some low
  | false, true => some high
  | false, false => none

/-- The first grid of at most `count` further digits with a neighbour that reads back. -/
def search (reads : Decimal → Bool) (num den : Nat) : Nat → Int → Decimal
  | 0, e => ⟨(scaleTen num den e).1 / (scaleTen num den e).2, e⟩
  | count + 1, e =>
    match onGrid reads num den e with
    | some d => d
    | none => search reads num den count (e - 1)

/-- Seventeen digits always suffice. -/
def maxDigits : Nat := 17

/-- Fewest digits that read back to the positive number `mantissa * 2 ^ exponent`. -/
def shortest (mantissa : Nat) (exponent : Int) : Decimal :=
  let ratio := scaleRatio mantissa 1 (-exponent)
  let reads (d : Decimal) : Bool :=
    Binary64.ofDecimal false d.digits d.exponent = Binary64.finite false mantissa exponent
  search reads ratio.1 ratio.2 maxDigits (magnitude ratio.1 ratio.2 - 1)

end Decimal

/-! ## The text -/

/-- How a format lays out the digits of a number. -/
structure NumberFormat where
  /-- Decimal exponents written without an exponent mark lie from here … -/
  leastPositional : Int
  /-- … to just below this. -/
  exponential : Int
  /-- Least count of exponent digits. -/
  exponentWidth : Nat
  infinity : String

/-- Positional from 10⁻⁴ to below 10¹⁶, always with a fraction; otherwise an exponent of at least
two digits with its sign. -/
def NumberFormat.standard : NumberFormat := ⟨-4, 16, 2, "inf"⟩

def padLeft (width : Nat) (cs : List Char) : List Char :=
  List.replicate (width - cs.length) '0' ++ cs

/-- Lay out the digits `ds` of a number whose point stands after the first `point` of them. -/
def NumberFormat.layout (f : NumberFormat) (ds : List Char) (point : Int) : List Char :=
  let exponent := point - 1
  if exponent < f.leastPositional ∨ f.exponential ≤ exponent then
    let mantissa := match ds with
      | [] => []
      | [d] => [d]
      | d :: rest => d :: '.' :: rest
    mantissa ++ 'e' :: (if exponent < 0 then '-' else '+') ::
      padLeft f.exponentWidth (Nat.toDigits 10 exponent.natAbs)
  else match point with
    | .negSucc z => '0' :: '.' :: (List.replicate (z + 1) '0' ++ ds)
    | .ofNat 0 => '0' :: '.' :: ds
    | .ofNat p =>
      let whole := ds.take p ++ List.replicate (p - ds.length) '0'
      let fraction := ds.drop p
      whole ++ '.' :: (if fraction.isEmpty then ['0'] else fraction)

def dropTrailingZeros (ds : List Char) : List Char := (ds.reverse.dropWhile (· == '0')).reverse

/-- The digits of `d` without trailing zeros, and where the point stands among them. -/
def Decimal.laidOut (d : Decimal) : List Char × Int :=
  let ds := Nat.toDigits 10 d.digits
  (dropTrailingZeros ds, ds.length + d.exponent)

def Binary64.text (f : NumberFormat) (x : Binary64) : String :=
  match x with
  | .infinite negative => (if negative then "-" else "") ++ f.infinity
  | .finite negative m e =>
    let (ds, point) := if m = 0 then (['0'], 1) else (Decimal.shortest m e).laidOut
    (if negative then "-" else "") ++ String.ofList (f.layout ds point)

/-! ## Reading -/

/-- The parts of a numeral: sign, whole digits, fraction digits and exponent, the last two only
where they are written. -/
structure Numeral where
  negative : Bool
  whole : List Char
  fraction : Option (List Char)
  exponent : Option Int

namespace Numeral

def natOfDigits (ds : List Char) : Nat :=
  ds.foldl (fun n c => 10 * n + (c.toNat - '0'.toNat)) 0

/-- The exponent that a text starts with, if it starts with one, and what follows: the mark `e` or
`E`, a sign or none, and at least one digit. -/
def splitExponent : List Char → Option Int × List Char
  | [] => (none, [])
  | mark :: rest =>
    let (negative, ds) := match rest with
      | '-' :: ds => (true, ds)
      | '+' :: ds => (false, ds)
      | ds => (false, ds)
    let digits := ds.takeWhile Char.isDigit
    let magnitude : Int := natOfDigits digits
    if (mark = 'e' ∨ mark = 'E') ∧ !digits.isEmpty then
      (some (if negative then -magnitude else magnitude), ds.dropWhile Char.isDigit)
    else (none, mark :: rest)

/-- The fraction that a text starts with, if it starts with one, and what follows: a point and at
least one digit. -/
def splitFraction : List Char → Option (List Char) × List Char
  | '.' :: rest =>
    let digits := rest.takeWhile Char.isDigit
    if digits.isEmpty then (none, '.' :: rest) else (some digits, rest.dropWhile Char.isDigit)
  | cs => (none, cs)

/-- The longest numeral that a text starts with, and what follows it: an optional minus sign,
digits, an optional fraction, an optional exponent. -/
def split? (cs : List Char) : Option (Numeral × List Char) :=
  let (negative, cs) := match cs with
    | '-' :: rest => (true, rest)
    | _ => (false, cs)
  let whole := cs.takeWhile Char.isDigit
  if whole.isEmpty then none
  else
    let (fraction, cs) := splitFraction (cs.dropWhile Char.isDigit)
    let (exponent, cs) := splitExponent cs
    some (⟨negative, whole, fraction, exponent⟩, cs)

/-- The numeral that a text is, with nothing after it. -/
def ofChars? (cs : List Char) : Option Numeral :=
  match split? cs with
  | some (n, []) => some n
  | _ => none

def isInteger (n : Numeral) : Bool := n.fraction.isNone && n.exponent.isNone

def toInt (n : Numeral) : Int :=
  let magnitude : Int := natOfDigits n.whole
  if n.negative then -magnitude else magnitude

def toBinary64 (n : Numeral) : Binary64 :=
  let fraction := n.fraction.getD []
  Binary64.ofDecimal n.negative (natOfDigits (n.whole ++ fraction))
    (n.exponent.getD 0 - fraction.length)

end Numeral

/-- The number that a text names: a numeral or a signed infinity. -/
def Binary64.ofText? (f : NumberFormat) (s : String) : Option Binary64 :=
  if s = f.infinity then some (.infinite false)
  else if s = "-" ++ f.infinity then some (.infinite true)
  else (Numeral.ofChars? s.toList).map Numeral.toBinary64

end HexRules
