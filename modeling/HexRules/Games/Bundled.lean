import HexRules.Directory
import HexRules.Games.Alchemy
import HexRules.Games.FivePhases

/-!
# Bundled games

The games that come with the library, in the directory where it keeps them.
-/

namespace HexRules.Games

/-- The games by their names. -/
def bundled : List (String × GameDocument) := [("sigmar", alchemy), ("mofang", fivePhases)]

/-- The name of the file that holds a game. -/
def fileName (name : String) : String := name ++ ".json"

/-- The directory of the library's games, somewhere in a tree. -/
def location : Location := [Directory.unnamed, "mofang_rules", "games"]

def directory : Directory GameDocument where
  location := location
  files := Table.ofList (bundled.map fun game => (location ++ [fileName game.1], game.2))

end HexRules.Games
