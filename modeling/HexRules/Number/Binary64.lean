/-!
# Binary floating point with 64 bits

A finite number is a sign, a mantissa and a power of two, so its value is an exact rational;
nothing is computed in machine arithmetic.  `Binary64.ofRatio` is the only way in: it rounds a
quotient to the nearest representable number, a tie to the even mantissa, and overflows to an
infinity.

    0 < den → roundDiv num den is at most half a unit more than num / den    (two_mul_roundDiv_le)
-/

namespace HexRules

/-! ## Rounding a quotient -/

/-- The integer nearest to `num / den`; a half goes to the even neighbour. -/
def roundDiv (num den : Nat) : Nat :=
  let q := num / den
  let r := num % den
  if 2 * r < den then q
  else if den < 2 * r then q + 1
  else if q % 2 = 0 then q else q + 1

/-- `num / den / 2 ^ e` as a quotient of natural numbers. -/
def scaleRatio (num den : Nat) : Int → Nat × Nat
  | .ofNat e => (num, den * Nat.pow 2 e)
  | .negSucc e => (num * Nat.pow 2 (e + 1), den)

/-! ## The numbers -/

inductive Binary64
  | finite (negative : Bool) (mantissa : Nat) (exponent : Int)
  | infinite (negative : Bool)
  deriving DecidableEq, Repr

namespace Binary64

def zero : Binary64 := finite false 0 0

/-- Mantissas lie below this, and those of all but the smallest numbers reach half of it. -/
def mantissaBound : Nat := Nat.pow 2 53

/-- Unit exponent of the smallest numbers. -/
def minExponent : Int := -1074

/-- Largest unit exponent of a finite number. -/
def maxExponent : Int := 971

/-- The exponent that gives `num / den` a mantissa of 53 bits, or the least one. -/
def unitExponent (num den : Nat) : Int :=
  let low : Int := (Nat.log2 num : Int) - (Nat.log2 den : Int) - 53
  let scaled := scaleRatio num den low
  let e := if scaled.1 < mantissaBound * scaled.2 then low else low + 1
  if e < minExponent then minExponent else e

/-- The number nearest to `num / den`, a tie to the even mantissa. -/
def ofRatio (negative : Bool) (num den : Nat) : Binary64 :=
  if num = 0 then finite negative 0 0
  else
    let e := unitExponent num den
    let scaled := scaleRatio num den e
    let m := roundDiv scaled.1 scaled.2
    let carried := if m = mantissaBound then (mantissaBound / 2, e + 1) else (m, e)
    if maxExponent < carried.2 then infinite negative
    else if carried.1 = 0 then finite negative 0 0
    else finite negative carried.1 carried.2

/-- The number nearest to `digits * 10 ^ exponent`.  Magnitudes that are out of range by their
count of digits alone are settled before any power is taken. -/
def ofDecimal (negative : Bool) (digits : Nat) (exponent : Int) : Binary64 :=
  let top : Int := (Nat.toDigits 10 digits).length + exponent
  if digits = 0 then finite negative 0 0
  else if 310 < top then infinite negative
  else if top < -330 then finite negative 0 0
  else match exponent with
    | .ofNat e => ofRatio negative (digits * Nat.pow 10 e) 1
    | .negSucc e => ofRatio negative digits (Nat.pow 10 (e + 1))

/-- The exact value of a finite number. -/
def toRat? : Binary64 → Option Rat
  | finite negative m e =>
    let magnitude : Rat := mkRat (scaleRatio m 1 (-e)).1 (scaleRatio m 1 (-e)).2
    some (if negative then -magnitude else magnitude)
  | infinite _ => none

/-- Where a number stands among all: the infinities outside, the finite ones by value. -/
def key (x : Binary64) : Int × Rat :=
  match x.toRat? with
  | some v => (0, v)
  | none => (match x with | infinite true => -1 | _ => 1, 0)

/-- The exact integer that a number is, if it is one. -/
def toInt? (x : Binary64) : Option Int :=
  match x.toRat? with
  | some v => if v.den = 1 then some v.num else none
  | none => none

end Binary64

/-! ## Lemmas -/

/-- Rounding goes at most half a unit up. -/
theorem two_mul_roundDiv_le (num den : Nat) (h : 0 < den) :
    2 * (den * roundDiv num den) ≤ 2 * num + den := by
  have hd := Nat.div_add_mod num den
  have hr := Nat.mod_lt num h
  unfold roundDiv
  simp only
  split
  · omega
  · split
    · rw [Nat.mul_add]; omega
    · split
      · omega
      · rw [Nat.mul_add]; omega

end HexRules
