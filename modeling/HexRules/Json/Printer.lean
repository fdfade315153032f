import HexRules.Json.Basic
import HexRules.Text.Quoted

/-!
# Texts of JSON values

`Json.render` writes JSON in ASCII.  `Json.quoted` writes a value as messages show it: constants
capitalised, texts in quote marks, members and items after a comma and a blank.
-/

namespace HexRules.Json

/-! ## JSON text -/

/-- One UTF-16 unit as an escape. -/
def unitEscape (n : Nat) : List Char := '\\' :: 'u' :: Text.hexDigits 4 n

/-- How a character is written inside a JSON string. -/
def escapeChar (c : Char) : List Char :=
  if c = Text.doubleQuote ∨ c = '\\' then ['\\', c]
  else if c = '\n' then ['\\', 'n']
  else if c = '\r' then ['\\', 'r']
  else if c = '\t' then ['\\', 't']
  else if 0x20 ≤ c.toNat ∧ c.toNat < 0x7F then [c]
  else if c.toNat < 0x10000 then unitEscape c.toNat
  else
    let rest := c.toNat - 0x10000
    unitEscape (0xD800 + rest / 0x400) ++ unitEscape (0xDC00 + rest % 0x400)

def renderString (s : String) : String :=
  String.ofList (Text.doubleQuote :: s.toList.flatMap escapeChar ++ [Text.doubleQuote])

/-- Put `,` between texts. -/
def commaSeparated (texts : List String) : String := String.intercalate "," texts

mutual

def render : Json → String
  | null => "null"
  | bool true => "true"
  | bool false => "false"
  | number n => n.text
  | string s => renderString s
  | array items => "[" ++ commaSeparated (renderItems items) ++ "]"
  | object members => "\x7b" ++ commaSeparated (renderMembers members) ++ "\x7d"

def renderItems : List Json → List String
  | [] => []
  | j :: rest => render j :: renderItems rest

def renderMembers : List (String × Json) → List String
  | [] => []
  | (k, j) :: rest => (renderString k ++ ":" ++ render j) :: renderMembers rest

end

/-! ## Text in messages -/

mutual

def quoted : Json → String
  | null => "None"
  | bool true => "True"
  | bool false => "False"
  | number n => n.text
  | string s => Text.quoted s
  | array items => "[" ++ String.intercalate ", " (quotedItems items) ++ "]"
  | object members => "\x7b" ++ String.intercalate ", " (quotedMembers members) ++ "\x7d"

def quotedItems : List Json → List String
  | [] => []
  | j :: rest => quoted j :: quotedItems rest

def quotedMembers : List (String × Json) → List String
  | [] => []
  | (k, j) :: rest => (Text.quoted k ++ ": " ++ quoted j) :: quotedMembers rest

end

/-- The text of a value put into a sentence: a text stands for itself, other values as `quoted`. -/
def plain : Json → String
  | string s => s
  | j => quoted j

end HexRules.Json
