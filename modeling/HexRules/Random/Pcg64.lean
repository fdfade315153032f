import HexRules.Random.Generator
import HexRules.Random.SeedSequence

/-!
# Permuted congruential generator

128 bits of linear congruential state, of which each step gives 64 after folding and rotating.
Halves of a 64-bit draw are handed out one after the other where 32 bits are enough.

    (drawBelow n g).1 < n, for every positive n                          (drawBelow_lt)
-/

namespace HexRules

structure Pcg64 where
  increment : Nat
  state : Nat
  /-- Is the upper half of the last 64-bit draw still to be handed out? -/
  hasHalf : Bool
  /-- The last half that was kept back. -/
  half : UInt32

namespace Pcg64

open SeedSequence (wordCount)

/-! ## Words -/

def multiplier : Nat := 0x2360ED051FC65DA44385DF649FCCF645

def step (g : Pcg64) : Pcg64 :=
  { g with state := (g.state * multiplier + g.increment) % Nat.pow 2 128 }

/-- The generator that a seed sequence starts. -/
def ofSequence (s : SeedSequence) : Pcg64 :=
  let ws := SeedSequence.pairWords (s.generate 8)
  let start := ws.getD 0 0 * Nat.pow 2 64 + ws.getD 1 0
  let increment := (2 * (ws.getD 2 0 * Nat.pow 2 64 + ws.getD 3 0) + 1) % Nat.pow 2 128
  let first := step ⟨increment, 0, false, 0⟩
  step { first with state := (first.state + start) % Nat.pow 2 128 }

/-- Rotate to the right; shifts go by their distance modulo 64. -/
def rotateRight (x k : UInt64) : UInt64 := (x >>> k) ||| (x <<< (64 - k))

/-- The halves of the state folded into one word and rotated by its six upper bits. -/
def next64 (g : Pcg64) : UInt64 × Pcg64 :=
  let g := g.step
  let high := UInt64.ofNat (g.state >>> 64)
  let low := UInt64.ofNat g.state
  (rotateRight (high ^^^ low) (high >>> 58), g)

/-- The half that is kept back, or the lower half of a new draw. -/
def next32 (g : Pcg64) : UInt32 × Pcg64 :=
  if g.hasHalf then (g.half, { g with hasHalf := false })
  else
    let (word, g) := g.next64
    (word.toUInt32, { g with hasHalf := true, half := (word >>> 32).toUInt32 })

/-- The upper 53 bits of a 64-bit draw. -/
def next53 (g : Pcg64) : Nat × Pcg64 :=
  let (word, g) := g.next64
  ((word >>> 11).toNat, g)

/-! ## Numbers below a bound -/

/-- Most draws that are refused before the last one is taken as it comes. -/
def maxRedraws : Nat := 4096

/-- Redraw until the lower half of the product with `n` reaches the threshold. -/
def redraw (n threshold : Nat) : Nat → UInt32 → Pcg64 → UInt32 × Pcg64
  | 0, word, g => (word, g)
  | left + 1, word, g =>
    if word.toNat * n % wordCount < threshold then
      let (word, g) := g.next32
      redraw n threshold left word g
    else (word, g)

/-- A number below `n`: the upper half of a draw times `n`.  For `n` up to 2³² the draws that would
make some numbers likelier than others are refused. -/
def drawBelow (n : Nat) (g : Pcg64) : Nat × Pcg64 :=
  if n ≤ 1 then (0, g)
  else
    let (word, g) := g.next32
    let (word, g) :=
      if word.toNat * n % wordCount < n then
        redraw n ((wordCount - n) % n) maxRedraws word g
      else (word, g)
    (word.toNat * n / wordCount, g)

/-- A number below each of some bounds, drawn one after the other; none when a bound leaves no
number to draw. -/
def drawEach : List Int → Pcg64 → Option (List Nat) × Pcg64
  | [], g => (some [], g)
  | n :: rest, g =>
    if n ≤ 0 then (none, g)
    else
      let (drawn, g) := drawBelow n.toNat g
      let (others, g) := drawEach rest g
      (others.map (drawn :: ·), g)

/-! ## Shuffling -/

/-- The smallest number of the form `2 ^ k - 1` that is at least `i`. -/
def maskFor (i : Nat) : Nat := if i = 0 then 0 else Nat.pow 2 (Nat.log2 i + 1) - 1

/-- Draw under a mask until the draw is at most `i`. -/
def drawMasked (i : Nat) : Nat → Pcg64 → Nat × Pcg64
  | 0, g => (0, g)
  | left + 1, g =>
    let (word, g) := g.next32
    let drawn := word.toNat &&& maskFor i
    if drawn ≤ i then (drawn, g) else drawMasked i left g

/-- How many different 53-bit draws there are. -/
def fractionCount : Nat := Nat.pow 2 53

instance : Generator Pcg64 where
  random g :=
    let (word, g) := g.next53
    (mkRat word fractionCount, g)
  below := drawBelow
  shuffle items g := Generator.shuffleDown (fun i => drawMasked i maxRedraws) items g

/-! ## Lemmas -/

theorem next53_lt (g : Pcg64) : g.next53.1 < fractionCount := by
  have h : ∀ x : UInt64, (x >>> 11).toNat < fractionCount := by
    intro x
    have hx := x.toNat_lt
    rw [UInt64.toNat_shiftRight, show (11 : UInt64).toNat % 64 = 11 from rfl,
      Nat.shiftRight_eq_div_pow, show fractionCount = 9007199254740992 from rfl]
    omega
  exact h _

/-- The upper half of a word times `n` is below `n`. -/
theorem mul_div_wordCount_lt (word : UInt32) (n : Nat) (h : 0 < n) :
    word.toNat * n / wordCount < n :=
  Nat.div_lt_of_lt_mul (Nat.mul_lt_mul_of_pos_right word.toNat_lt h)

theorem drawBelow_lt (n : Nat) (g : Pcg64) (h : 0 < n) : (drawBelow n g).1 < n := by
  unfold drawBelow
  split
  · exact h
  · exact mul_div_wordCount_lt _ n h

instance : LawfulGenerator Pcg64 where
  random_nonneg _ := Generator.mkRat_nonneg _ _
  random_lt_one g := Generator.mkRat_lt_one _ _ (next53_lt g)
  below_lt := drawBelow_lt
  shuffle_perm items g := Generator.shuffleDown_perm _ items g

end Pcg64

end HexRules
