import HexRules.Event
import HexRules.Table

/-!
# Log levels

Loggers have levels of their own, by name; a logger of level 0 takes the level of the root logger,
which goes by its name and by none.  `Logging.setup` sets the level of the project's logger and
those of the library loggers.
-/

namespace HexRules.Logging

def defaultLevel : Int := 20

/-- The logger that scripts report through. -/
def projectLogger : String := "mofang"

/-- The loggers of the library. -/
def libraryLoggers : List String := ["mofang_core", "mofang_rules"]

def rootLogger : String := "root"

/-- Level of the root logger where nothing has set it. -/
def rootLevel : Int := 30

/-- The levels that have been set. -/
abbrev Levels := Table String Int

/-- The logger that a name stands for. -/
def loggerOf (name : String) : String := if name.isEmpty then rootLogger else name

def levelOf (levels : Levels) (name : String) : Int :=
  let logger := loggerOf name
  (levels.get? logger).getD (if logger = rootLogger then rootLevel else 0)

def setLevel (levels : Levels) (name : String) (level : Int) : Levels :=
  levels.insert (loggerOf name) level

/-- Give all of some loggers one level. -/
def setLevels (levels : Levels) (names : List String) (level : Int) : Levels :=
  names.foldl (fun ls name => setLevel ls name level) levels

/-- The level that decides whether a logger lets a record through. -/
def effectiveLevel (levels : Levels) (name : String) : Int :=
  let own := levelOf levels name
  if own = 0 then levelOf levels rootLogger else own

/-- Levels after setting up, and what is reported: the libraries get `libraryLevel`, or `level` if
there is none, and then the project's logger gets `level`. -/
def setup (level : Int) (libraryLevel : Option Int) (libraries : List String) (levels : Levels) :
    Levels × List Event :=
  let levels := setLevels levels libraries (libraryLevel.getD level)
  let levels := setLevel levels projectLogger level
  (levels,
    if effectiveLevel levels projectLogger ≤ Level.debug.rank then [.loggingReady] else [])

end HexRules.Logging
