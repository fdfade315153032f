import HexRules.Text.Printable

/-!
# Quoted text in messages

A message that shows a text puts it between quote marks: single ones, unless the text holds a
single quote and no double one.  The mark itself, the backslash and every character that is not
printable are written as escapes.
-/

namespace HexRules.Text

def singleQuote : Char := '\x27'

def doubleQuote : Char := '\x22'

/-- `width` lower-case hexadecimal digits of `n`, most significant first. -/
def hexDigits : Nat → Nat → List Char
  | 0, _ => []
  | width + 1, n => hexDigits width (n / 16) ++ [Nat.digitChar (n % 16)]

/-- The shortest of the three numeric escapes that can name `c`. -/
def numericEscape (c : Char) : List Char :=
  if c.toNat < 0x100 then '\\' :: 'x' :: hexDigits 2 c.toNat
  else if c.toNat < 0x10000 then '\\' :: 'u' :: hexDigits 4 c.toNat
  else '\\' :: 'U' :: hexDigits 8 c.toNat

/-- How `c` is written between two marks. -/
def escape (mark c : Char) : List Char :=
  if c = mark ∨ c = '\\' then ['\\', c]
  else if c = '\n' then ['\\', 'n']
  else if c = '\r' then ['\\', 'r']
  else if c = '\t' then ['\\', 't']
  else if isPrintable c then [c]
  else numericEscape c

def quoteMark (cs : List Char) : Char :=
  if singleQuote ∈ cs ∧ doubleQuote ∉ cs then doubleQuote else singleQuote

def quoted (s : String) : String :=
  let mark := quoteMark s.toList
  String.ofList (mark :: s.toList.flatMap (escape mark) ++ [mark])

end HexRules.Text
