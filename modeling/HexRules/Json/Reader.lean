import HexRules.Json.Basic

/-!
# Reading JSON

A text is cut into tokens by one step per character; the tokens are put together by a machine
whose stack holds the arrays and objects that are still open.  Neither can run on for ever, and
neither needs a bound: both recurse on their input.

    Json.read text = .ok j      the text is one JSON value and nothing else

`Infinity` and `-Infinity` are read beyond what JSON has.  The word `NaN` is refused, as there is no
such number (`Number`), and so is an escaped surrogate without its partner, as it is no character of
a string; a reader that takes these in reads texts that this one calls malformed.
-/

namespace HexRules.Json

/-- Why a text is not read. -/
inductive ReadError
  | malformed
  /-- An integer has more digits than are converted. -/
  | integerTooLong
  deriving DecidableEq, Repr

/-! ## Tokens -/

inductive Token
  | openArray
  | closeArray
  | openObject
  | closeObject
  | comma
  | colon
  | scalar (value : Json)
  | tooLong
  | invalid

/-- Digits beyond which an integer is not converted. -/
def maxIntegerDigits : Nat := 4300

/-- The token of characters of which numerals are made.  A number ends where the longest numeral
does, so an integer that is too long is found out before what follows it. -/
def numeralToken (cs : List Char) : Token :=
  match Numeral.split? cs with
  | none => .invalid
  | some (n, rest) =>
    if n.whole.length ≠ 1 ∧ n.whole.head? = some '0' then .invalid
    else if n.isInteger && maxIntegerDigits < n.whole.length then .tooLong
    else if !rest.isEmpty then .invalid
    else if n.isInteger then .scalar (.number (.int n.toInt))
    else .scalar (.number (.float n.toBinary64))

/-- The token of a word.  The infinities are words too, and one has a sign; `NaN` is none. -/
def wordToken (cs : List Char) : Token :=
  match String.ofList cs with
  | "null" => .scalar .null
  | "true" => .scalar (.bool true)
  | "false" => .scalar (.bool false)
  | "Infinity" => .scalar (.number (.float (.infinite false)))
  | "-Infinity" => .scalar (.number (.float (.infinite true)))
  | _ => .invalid

/-- Join each high surrogate with a low one right after it. -/
def joinSurrogates : List Nat → List Nat
  | [] => []
  | [u] => [u]
  | u :: v :: rest =>
    if 0xD800 ≤ u ∧ u < 0xDC00 ∧ 0xDC00 ≤ v ∧ v < 0xE000 then
      (0x10000 + (u - 0xD800) * 0x400 + (v - 0xDC00)) :: joinSurrogates rest
    else u :: joinSurrogates (v :: rest)

/-- The string of code points and UTF-16 units collected last first.  A surrogate that is left alone
is no character. -/
def stringToken (units : List Nat) : Token :=
  let points := joinSurrogates units.reverse
  if points.all fun point => decide point.isValidChar then
    .scalar (.string (String.ofList (points.map Char.ofNat)))
  else .invalid

/-- What the characters so far leave open.  Characters and units are collected last first. -/
inductive Lexeme
  | none
  | numeral (chars : List Char)
  | word (chars : List Char)
  | string (units : List Nat)
  | escape (units : List Nat)
  | hex (units : List Nat) (value left : Nat)
  | broken

def isNumeralChar (c : Char) : Bool := c.isDigit || c == '-' || c == '+' || c == '.'

def isBlank (c : Char) : Bool := c == ' ' || c == '\t' || c == '\n' || c == '\r'

/-- A character that no open lexeme takes. -/
def start (c : Char) : Lexeme × List Token :=
  if isBlank c then (.none, [])
  else if c = '[' then (.none, [.openArray])
  else if c = ']' then (.none, [.closeArray])
  else if c = '\x7b' then (.none, [.openObject])
  else if c = '\x7d' then (.none, [.closeObject])
  else if c = ',' then (.none, [.comma])
  else if c = ':' then (.none, [.colon])
  else if c = '\x22' then (.string [], [])
  else if isNumeralChar c then (.numeral [c], [])
  else if c.isAlpha then (.word [c], [])
  else (.broken, [.invalid])

/-- The character that a one-letter escape stands for. -/
def shortEscape? (c : Char) : Option Nat :=
  match c with
  | '\x22' => some 0x22
  | '\\' => some 0x5C
  | '/' => some 0x2F
  | 'b' => some 0x08
  | 'f' => some 0x0C
  | 'n' => some 0x0A
  | 'r' => some 0x0D
  | 't' => some 0x09
  | _ => Option.none

def hexValue? (c : Char) : Option Nat :=
  if c.isDigit then some (c.toNat - '0'.toNat)
  else if 'a' ≤ c ∧ c ≤ 'f' then some (c.toNat - 'a'.toNat + 10)
  else if 'A' ≤ c ∧ c ≤ 'F' then some (c.toNat - 'A'.toNat + 10)
  else Option.none

def step : Lexeme → Char → Lexeme × List Token
  | .none, c => start c
  | .numeral cs, c =>
    if isNumeralChar c || c == 'e' || c == 'E' then (.numeral (c :: cs), [])
    else if cs == ['-'] && c.isAlpha then (.word (c :: cs), [])
    else
      let next := start c
      (next.1, numeralToken cs.reverse :: next.2)
  | .word cs, c =>
    if c.isAlphanum then (.word (c :: cs), [])
    else
      let next := start c
      (next.1, wordToken cs.reverse :: next.2)
  | .string units, c =>
    if c = '\x22' then (.none, [stringToken units])
    else if c = '\\' then (.escape units, [])
    else if c.toNat < 0x20 then (.broken, [.invalid])
    else (.string (c.toNat :: units), [])
  | .escape units, c =>
    if c = 'u' then (.hex units 0 4, [])
    else match shortEscape? c with
      | some u => (.string (u :: units), [])
      | Option.none => (.broken, [.invalid])
  | .hex units value left, c =>
    match hexValue? c with
    | Option.none => (.broken, [.invalid])
    | some d =>
      if left ≤ 1 then (.string ((16 * value + d) :: units), [])
      else (.hex units (16 * value + d) (left - 1), [])
  | .broken, _ => (.broken, [])

/-- The tokens that are still owed when the text ends. -/
def finish : Lexeme → List Token
  | .none => []
  | .numeral cs => [numeralToken cs.reverse]
  | .word cs => [wordToken cs.reverse]
  | .broken => []
  | _ => [.invalid]

/-- The tokens of a text: one step for each character, and what the last lexeme still owes. -/
def tokens (cs : List Char) : List Token :=
  let last := cs.foldl (fun (state : Lexeme × List Token) c =>
    let next := step state.1 c
    (next.1, next.2.reverse ++ state.2)) (.none, [])
  last.2.reverse ++ finish last.1

/-! ## Values -/

/-- An array or object that is still open. -/
inductive Frame
  | array (items : List Json)
  | object (members : List (String × Json))
  | member (members : List (String × Json)) (key : String)

/-- What may come next. -/
inductive Expect
  | value
  | itemOrClose
  | keyOrClose
  | key
  | colon
  | separator
  | done (value : Json)

structure Machine where
  expect : Expect
  stack : List Frame

/-- A value is complete: it goes into the innermost open frame. -/
def Machine.complete (stack : List Frame) (value : Json) : Machine :=
  match stack with
  | .array items :: rest => ⟨.separator, .array (value :: items) :: rest⟩
  | .member members key :: rest => ⟨.separator, .object (putEntry key value members) :: rest⟩
  | stack => ⟨.done value, stack⟩

/-- A value begins. -/
def Machine.begin (stack : List Frame) : Token → Except ReadError Machine
  | .scalar value => .ok (complete stack value)
  | .openArray => .ok ⟨.itemOrClose, .array [] :: stack⟩
  | .openObject => .ok ⟨.keyOrClose, .object [] :: stack⟩
  | .tooLong => .error .integerTooLong
  | _ => .error .malformed

def Machine.step (m : Machine) (t : Token) : Except ReadError Machine :=
  match m.expect, t, m.stack with
  | .itemOrClose, .closeArray, .array _ :: rest => .ok (complete rest (.array []))
  | .itemOrClose, t, stack => begin stack t
  | .value, t, stack => begin stack t
  | .keyOrClose, .closeObject, .object _ :: rest => .ok (complete rest (.object []))
  | .keyOrClose, .scalar (.string key), .object members :: rest =>
    .ok ⟨.colon, .member members key :: rest⟩
  | .key, .scalar (.string key), .object members :: rest =>
    .ok ⟨.colon, .member members key :: rest⟩
  | .colon, .colon, stack => .ok ⟨.value, stack⟩
  | .separator, .comma, .array items :: rest => .ok ⟨.value, .array items :: rest⟩
  | .separator, .comma, .object members :: rest => .ok ⟨.key, .object members :: rest⟩
  | .separator, .closeArray, .array items :: rest => .ok (complete rest (.array items.reverse))
  | .separator, .closeObject, .object members :: rest => .ok (complete rest (.object members))
  | _, _, _ => .error .malformed

/-- The JSON value that a text is. -/
def read (text : String) : Except ReadError Json := do
  let m ← (tokens text.toList).foldlM Machine.step ⟨.value, []⟩
  match m.expect with
  | .done value => .ok value
  | _ => .error .malformed

end HexRules.Json
