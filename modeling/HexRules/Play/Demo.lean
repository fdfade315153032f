import HexRules.Play.Autoplay
import HexRules.Repository

/-!
# Demonstration

A bundled game dealt from a seed and played by itself.
-/

namespace HexRules.Demo

def defaultGame : String := "sigmar"

def defaultSeed : Int := 42

/-- What the game of a name, dealt from a seed, reports while it plays itself. -/
def run (name : String) (seed : Int) : Except Error (List Event) :=
  match (Repository.empty.loadBundled name).1 with
  | .error e => .error e
  | .ok entry =>
    match (Session.spawnGame entry.definition (Shared.start 0) (some seed)).1 with
    | .error e => .error e
    | .ok (session, _) => Autoplay.play name session

end HexRules.Demo
