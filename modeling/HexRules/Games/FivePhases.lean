import HexRules.Document.Build

/-!
# The game `mofang`

Five phases that destroy one another in a cycle, heaven, earth and human, yin and yang, creation
and destruction, and qi.  How many neighbours in a row must be empty depends on the piece, and for
a phase on whether a human is selected.
-/

namespace HexRules.Games

open Build

/-- The names of the phases. -/
def phases : List String := ["wood", "fire", "earth", "metal", "water"]

def fivePhases : GameDocument where
  id := "mofang"
  nodes :=
    ["wood", "fire", "earth", "metal", "water", "heavenly", "earthly", "human", "yin", "yang",
     "creation", "destruction", "qi"]
  tags := [("elemental", phases)]
  mappings :=
    [("destroys",
      [("fire", "metal"), ("metal", "wood"), ("wood", "earth"), ("earth", "water"),
       ("water", "fire")]),
     ("change",
      [("wood", "fire"), ("fire", "earth"), ("earth", "metal"), ("metal", "water"),
       ("water", "wood"), ("heavenly", "earthly"), ("earthly", "human"),
       ("human", "heavenly")])]
  select := apply "contiguous-neighbors"
    (branch (equal [bound "self", .string "qi"]) (number 5)
      (branch
        (call "and"
          [equal [bound "selected", .array [.string "human"]],
           call "or" (phases.map fun name => equal [bound "self", .string name])])
        (number 2) (number 3)))
  rules :=
    [rule [key "destroys" (some "victim"), member "elemental" (some "other")]
      (some (equal [bound "victim", bound "other"])) none,
     rule [member "elemental" (some "other"), key "destroys" (some "victim")]
      (some (equal [bound "victim", bound "other"])) none,
     clearPieces ["heavenly", "yang"],
     clearPieces ["earthly", "yin"],
     clearPieces ["qi", "qi"],
     clearPieces ["creation", "creation"],
     rule [.piece "yin", .piece "yang"] none
      (some [.string "creation", .string "creation"]),
     clearPieces ["heavenly", "earthly", "human"],
     rule [.piece "human", member "elemental" (some "element")] none
      (some [bound "element", .null]),
     rule [key "change" (some "changed"), .piece "creation"] none
      (some [bound "changed", .null]),
     clearPieces ("destruction" :: phases)]
  radius := 5
  center := some "qi"
  bank :=
    [("wood", 5), ("fire", 5), ("earth", 5), ("metal", 5), ("water", 5), ("heavenly", 4),
     ("earthly", 4), ("human", 4), ("creation", 4), ("yin", 1), ("yang", 1),
     ("destruction", 1)]

end HexRules.Games
