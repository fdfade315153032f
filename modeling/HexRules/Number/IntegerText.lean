import HexRules.Number.Decimal

/-!
# Integers in texts

The integer that a text names: ` +0_012.00 ` names 12.  A text that is plainly digits, perhaps after
a minus sign, is read as it stands.  From any other one what it may carry beside its digits is taken
off first, in this order: blanks around it, a plus sign, leading zeros, a fraction of zeros,
underscores between digits; what is left then has to be plain.

No more than `maxDigits` digits are read.  A text that begins with more is too long; if they come
out only once something has been taken off, the text is malformed.
-/

namespace HexRules.IntegerText

inductive ReadError
  | malformed
  | tooLong
  deriving DecidableEq, Repr

/-! ## Taking off -/

/-- Blank characters, all of which may stand around a number in a text. -/
def isBlank (c : Char) : Bool :=
  let n := c.toNat
  (9 ≤ n && n ≤ 13) || n == 0x20 || n == 0x85 || n == 0xA0 || n == 0x1680 ||
    (0x2000 ≤ n && n ≤ 0x200A) || n == 0x2028 || n == 0x2029 || n == 0x202F || n == 0x205F ||
    n == 0x3000

def trimBlanks (cs : List Char) : List Char :=
  ((cs.dropWhile isBlank).reverse.dropWhile isBlank).reverse

/-- Drop zeros and underscores after a leading zero.  Other digits end them and so does a minus
sign.  Where a point or nothing at all follows, the last character before it stays. -/
def afterZero? (last : Char) : List Char → Option (List Char)
  | [] => some [last]
  | c :: rest =>
    if c = '0' ∨ c = '_' then afterZero? c rest
    else if c = '.' then some (last :: c :: rest)
    else if c.isDigit ∨ c = '-' then some (c :: rest)
    else none

/-- Drop leading zeros and the underscores among them from a text that starts with a digit. -/
def dropZeros? : List Char → Option (List Char)
  | [] => none
  | c :: rest =>
    if c = '0' then afterZero? c rest
    else if c.isDigit then some (c :: rest)
    else none

/-- Drop a plus sign and leading zeros; a minus sign stays in front. -/
def dropSign? : List Char → Option (List Char)
  | '+' :: rest => dropZeros? rest
  | '-' :: rest => (dropZeros? rest).map ('-' :: ·)
  | cs => dropZeros? cs

/-- Drop a fraction of one or more zeros. -/
def dropFraction (cs : List Char) : List Char :=
  match cs.dropWhile (· ≠ '.') with
  | _ :: d :: fraction =>
    if (d :: fraction).all (· = '0') then cs.takeWhile (· ≠ '.') else cs
  | _ => cs

/-- Is there an underscore right after another? -/
def doublesUnderscore : List Char → Bool
  | c :: d :: rest => (c = '_' && d = '_') || doublesUnderscore (d :: rest)
  | _ => false

/-- Drop underscores, if each of them stands alone between two other characters. -/
def dropUnderscores (cs : List Char) : List Char :=
  if cs.head? = some '_' ∨ cs.getLast? = some '_' ∨ doublesUnderscore cs then cs
  else cs.filter (· ≠ '_')

/-- A text without what it may carry beside its sign and digits. -/
def clean? (cs : List Char) : Option (List Char) :=
  (dropSign? (trimBlanks cs)).map fun cs => dropUnderscores (dropFraction cs)

/-! ## Reading -/

/-- Most digits that are read. -/
def maxDigits : Nat := 4300

/-- The integer of a minus sign, if there is one, and digits, of which a zero stands alone.  Too
many digits are refused before what follows them is looked at. -/
def ofPlain (cs : List Char) : Except ReadError Int :=
  let (negative, ds) := match cs with
    | '-' :: rest => (true, rest)
    | _ => (false, cs)
  let digits := ds.takeWhile Char.isDigit
  let magnitude : Int := Numeral.natOfDigits digits
  if digits.head? = some '0' ∧ 1 < digits.length then .error .malformed
  else if maxDigits < digits.length then .error .tooLong
  else if digits.isEmpty ∨ digits.length < ds.length then .error .malformed
  else .ok (if negative then -magnitude else magnitude)

/-- The integer of a text that has to be cleaned. -/
def ofUnclean (cs : List Char) : Except ReadError Int :=
  match (clean? cs).map ofPlain with
  | some (.ok n) => .ok n
  | _ => .error .malformed

/-- The integer that a text names. -/
def read (text : String) : Except ReadError Int :=
  match ofPlain text.toList with
  | .error .malformed => ofUnclean text.toList
  | answer => answer

end HexRules.IntegerText
