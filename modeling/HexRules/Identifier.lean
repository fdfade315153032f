/-!
# Identifiers and pieces

An identifier is a name in a namespace, written `space:name`.  A bare name is read in a namespace
that the reader supplies.  The types of pieces that lie on a board are identifiers.

    Identifier.parse? text space = none ↔ text holds two separators or more
-/

namespace HexRules

/-- A name in a namespace. -/
structure Identifier where
  space : String
  name : String
  deriving DecidableEq, Repr, Hashable

/-- The type of a piece.  Cells hold piece types; pieces of one type are alike. -/
abbrev Piece := Identifier

namespace Identifier

def separator : Char := ':'

/-- The parts of a text between separators; there is always one. -/
def parts : List Char → List (List Char)
  | [] => [[]]
  | c :: cs =>
    if c = separator then [] :: parts cs
    else match parts cs with
      | [] => [[c]]
      | part :: rest => (c :: part) :: rest

/-- A bare name is placed in `space`; one separator names a namespace; more are refused. -/
def parse? (text space : String) : Option Identifier :=
  match parts text.toList with
  | [name] => some ⟨space, String.ofList name⟩
  | [space', name] => some ⟨String.ofList space', String.ofList name⟩
  | _ => none

/-- Read `space:name` at its first separator; without one the whole text is the namespace. -/
def ofWritten (text : String) : Identifier :=
  let cs := text.toList
  ⟨String.ofList (cs.takeWhile (· ≠ separator)),
   String.ofList ((cs.dropWhile (· ≠ separator)).drop 1)⟩

def text (i : Identifier) : String := i.space ++ ":" ++ i.name

/-- By namespace, then by name, each by code points. -/
def lt (a b : Identifier) : Bool :=
  a.space < b.space || (a.space = b.space && a.name < b.name)

def le (a b : Identifier) : Bool := !lt b a

def sort (is : List Identifier) : List Identifier := is.mergeSort le

end Identifier

end HexRules
