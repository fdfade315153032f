import HexRules.Play.Demo

/-!
# Command line

Plays a bundled game by itself and writes what it reports to the standard error stream.  The first
argument names the game.
-/

open HexRules

def main (args : List String) : IO UInt32 := do
  let name := args.headD Demo.defaultGame
  match Demo.run name Demo.defaultSeed with
  | .ok events =>
    for event in events do
      let r := event.record
      IO.eprintln (r.level.name ++ " " ++ r.logger ++ ": " ++ r.message)
    return 0
  | .error (.file _ path) =>
    IO.eprintln ("No such game: " ++ path)
    return 1
  | .error e =>
    IO.eprintln (e.message?.getD "The game cannot be played")
    return 1
