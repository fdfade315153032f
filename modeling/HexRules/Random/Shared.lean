import HexRules.Error
import HexRules.Random.Pcg64
import HexRules.Random.Sha256

/-!
# Shared randomness

One seed in use, the seed sequence and the generator made from it.  A generator made without a
seed is a child of the shared sequence.  Which sequences and generators these are is left open;
`Shared` is shared randomness with seed sequences and permuted congruential generators.
-/

namespace HexRules

/-- Seed sequences and the generators that they start. -/
class SeedSource (σ : Type) (γ : outParam Type) where
  /-- The sequence of a seed; a seed can be refused. -/
  ofSeed : Int → Except Error σ
  /-- The next child of a sequence, and the sequence that remembers it. -/
  spawn : σ → σ × σ
  generator : σ → γ

structure Randomness (σ γ : Type) where
  /-- The seed that was last asked for. -/
  seed : Int
  sequence : σ
  generator : γ

namespace Randomness

variable {σ γ : Type} [SeedSource σ γ]

/-- What a sequence makes of nothing, if it is that of the seed. -/
def start (seed : Int) (sequence : σ) : Randomness σ γ :=
  ⟨seed, sequence, SeedSource.generator sequence⟩

/-- Seed anew.  The seed is noted before it is found to be refused. -/
def reseed (s : Randomness σ γ) (seed : Int) : Except Error Int × Randomness σ γ :=
  let noted := { s with seed := seed }
  match SeedSource.ofSeed seed with
  | .error e => (.error e, noted)
  | .ok sequence => (.ok seed, start seed sequence)

/-- A generator of its own: of a seed, or else of the next child of the shared sequence. -/
def spawn (s : Randomness σ γ) (seed : Option Int) : Except Error γ × Randomness σ γ :=
  match seed with
  | some n =>
    match (SeedSource.ofSeed n : Except Error σ) with
    | .error e => (.error e, s)
    | .ok sequence => (.ok (SeedSource.generator sequence), s)
  | none =>
    let (child, sequence) := SeedSource.spawn s.sequence
    (.ok (SeedSource.generator child), { s with sequence := sequence })

end Randomness

/-- A seed must not be negative. -/
instance : SeedSource SeedSequence Pcg64 where
  ofSeed seed := if seed < 0 then .error .negativeSeed else .ok (SeedSequence.ofSeed seed.toNat)
  spawn := SeedSequence.spawn
  generator := Pcg64.ofSequence

abbrev Shared : Type := Randomness SeedSequence Pcg64

namespace Shared

/-- What a seed makes of nothing. -/
def start (seed : Nat) : Shared := Randomness.start seed (SeedSequence.ofSeed seed)

/-- A number below each of some bounds. -/
def integers (bounds : List Int) (g : Pcg64) : Except Error (List Nat) × Pcg64 :=
  match g.drawEach bounds with
  | (some drawn, g) => (.ok drawn, g)
  | (none, g) => (.error .emptyRange, g)

end Shared

/-- The state of a generator as JSON, from which its digest is taken. -/
def Pcg64.stateText (g : Pcg64) : String :=
  "\x7b\"bit_generator\": \"PCG64\", \"has_uint32\": " ++ (if g.hasHalf then "1" else "0") ++
    ", \"state\": \x7b\"inc\": " ++ toString g.increment ++ ", \"state\": " ++
    toString g.state ++ "\x7d, \"uinteger\": " ++ toString g.half.toNat ++ "\x7d"

def Pcg64.digest (g : Pcg64) : String := Sha256.hexDigest g.stateText.toUTF8.toList

end HexRules
