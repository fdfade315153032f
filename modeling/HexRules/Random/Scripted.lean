import HexRules.Random.Generator

/-!
# Scripted draws

A generator that repeats given lists of draws for ever, to replay a known course of events.
-/

namespace HexRules

/-- What a scripted shuffle does. -/
inductive ShuffleMode
  | keep
  | reverse
  /-- The first item goes to the end. -/
  | rotate
  deriving DecidableEq, Repr

structure Scripted where
  randoms : Array Rat
  integers : Array Int
  mode : ShuffleMode
  nextRandom : Nat
  nextInteger : Nat

namespace Scripted

def start (randoms : List Rat) (integers : List Int) (mode : ShuffleMode) : Scripted :=
  ⟨randoms.toArray, integers.toArray, mode, 0, 0⟩

def reorder {α : Type} : ShuffleMode → List α → List α
  | .keep, items => items
  | .reverse, items => items.reverse
  | .rotate, [] => []
  | .rotate, first :: rest => rest ++ [first]

instance : Generator Scripted where
  random g :=
    ((g.randoms[g.nextRandom % g.randoms.size]?).getD 0, { g with nextRandom := g.nextRandom + 1 })
  below n g :=
    (((g.integers[g.nextInteger % g.integers.size]?).getD 0 % n).toNat,
      { g with nextInteger := g.nextInteger + 1 })
  shuffle items g := (reorder g.mode items, g)

end Scripted

end HexRules
