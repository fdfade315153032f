import HexRules.Document.Build

/-!
# The game `sigmar`

Pairs of elements, salt with any element, metals one by one with quicksilver from the lowest to
gold, and vitae with mors.  A piece can be taken when three neighbours in a row are empty and the
metal below it is gone.
-/

namespace HexRules.Games

open Build

def alchemy : GameDocument where
  id := "sigmar"
  nodes :=
    ["salt", "air", "earth", "fire", "water", "quicksilver", "lead", "tin", "iron", "copper",
     "silver", "gold", "vitae", "mors"]
  tags := [("prime", ["air", "earth", "fire", "water"])]
  mappings :=
    [("upgrade",
      [("lead", "tin"), ("tin", "iron"), ("iron", "copper"), ("copper", "silver"),
       ("silver", "gold")]),
     ("downgrade",
      [("tin", "lead"), ("iron", "tin"), ("copper", "iron"), ("silver", "copper"),
       ("gold", "silver")])]
  select := call "and"
    [apply "contiguous-neighbors" (number 3),
     equal [apply "board-contains" (lookup "downgrade" (bound "self")), .bool false]]
  rules :=
    [clear [.piece "salt", member "prime" none],
     rule [member "prime" (some "first"), member "prime" (some "second")]
      (some (equal [bound "first", bound "second"])) none,
     clear [.piece "quicksilver", key "upgrade" none],
     clearPieces ["vitae", "mors"],
     clearPieces ["gold"]]
  radius := 5
  center := some "gold"
  bank :=
    [("air", 8), ("earth", 8), ("fire", 8), ("water", 8), ("salt", 4), ("quicksilver", 5),
     ("lead", 1), ("tin", 1), ("iron", 1), ("copper", 1), ("silver", 1), ("vitae", 4),
     ("mors", 4)]

end HexRules.Games
