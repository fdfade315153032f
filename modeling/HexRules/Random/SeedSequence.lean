/-!
# Seed sequences

A seed sequence spreads the 32-bit words of a seed, and of the key that tells its children apart,
over a pool of four words, from which any number of words can be drawn.
-/

namespace HexRules

structure SeedSequence where
  seed : Nat
  /-- Empty at the root; a child appends its number. -/
  key : List Nat
  /-- Number of children so far. -/
  spawned : Nat

namespace SeedSequence

def ofSeed (seed : Nat) : SeedSequence := ⟨seed, [], 0⟩

/-- The next child, and the sequence that remembers it. -/
def spawn (s : SeedSequence) : SeedSequence × SeedSequence :=
  (⟨s.seed, s.key ++ [s.spawned], 0⟩, { s with spawned := s.spawned + 1 })

/-! ## Words -/

/-- How many 32-bit words there are. -/
def wordCount : Nat := Nat.pow 2 32

/-- The 32-bit words of a number above its lowest, least significant first. -/
def higherWords (n : Nat) : List UInt32 :=
  if n = 0 then [] else UInt32.ofNat n :: higherWords (n / wordCount)
termination_by n
decreasing_by exact Nat.div_lt_self (Nat.pos_of_ne_zero ‹_›) (by decide)

/-- The 32-bit words of a number, least significant first; zero has one word. -/
def words (n : Nat) : List UInt32 := if n = 0 then [0] else higherWords n

def poolSize : Nat := 4

/-- The words that are mixed: those of the seed, then those of the key after padding. -/
def entropy (s : SeedSequence) : List UInt32 :=
  let own := words s.seed
  if s.key.isEmpty then own
  else own ++ List.replicate (poolSize - own.length) 0 ++ s.key.flatMap words

/-! ## Mixing -/

/-- Hash a word with a running constant. -/
def hashMix (v h : UInt32) : UInt32 × UInt32 :=
  let h' := h * 0x931e8875
  let w := (v ^^^ h) * h'
  (w ^^^ (w >>> 16), h')

def mix (x y : UInt32) : UInt32 :=
  let r := 0xca01f9dd * x - 0x4973f715 * y
  r ^^^ (r >>> 16)

/-- Mix a word into one place of the pool. -/
def mixInto (v : UInt32) (state : Array UInt32 × UInt32) (j : Nat) : Array UInt32 × UInt32 :=
  let hashed := hashMix v state.2
  (state.1.modify j fun old => mix old hashed.1, hashed.2)

/-- Mix each word of the pool into the others. -/
def mixPool (state : Array UInt32 × UInt32) : Array UInt32 × UInt32 :=
  (List.range poolSize).foldl (fun state i =>
    ((List.range poolSize).filter (· ≠ i)).foldl
      (fun state j => mixInto (state.1.getD i 0) state j) state) state

/-- The first four words hashed into a pool. -/
def firstPool (ws : List UInt32) : Array UInt32 × UInt32 :=
  (List.range poolSize).foldl (fun state i =>
    let hashed := hashMix (ws.getD i 0) state.2
    (state.1.push hashed.1, hashed.2)) (#[], 0x43b0d7e5)

def pool (s : SeedSequence) : Array UInt32 :=
  let ws := s.entropy
  let state := mixPool (firstPool ws)
  ((ws.drop poolSize).foldl (fun state w =>
    (List.range poolSize).foldl (mixInto w) state) state).1

/-- The first `n` output words. -/
def generate (s : SeedSequence) (n : Nat) : List UInt32 :=
  let pool := s.pool
  ((List.range n).foldl (fun (out : List UInt32 × UInt32) i =>
    let g := out.2 * 0x58f38ded
    let v := (pool.getD (i % poolSize) 0 ^^^ out.2) * g
    ((v ^^^ (v >>> 16)) :: out.1, g)) ([], 0x8b51f9dd)).1.reverse

/-- Pairs of 32-bit words, the lower one first, as 64-bit numbers. -/
def pairWords : List UInt32 → List Nat
  | low :: high :: rest => (low.toNat + high.toNat * wordCount) :: pairWords rest
  | _ => []

end SeedSequence

end HexRules
