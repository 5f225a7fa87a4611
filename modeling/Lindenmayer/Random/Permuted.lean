/-
  A generator of 32-bit words from a linear congruence with a permuted output, and uniform choices
  from its words.  It is the default generator of NumPy, PCG64, which is seeded by way of a
  `SeedPool`.

  The state is a 128-bit number that is multiplied and incremented at each step; the increment is
  odd and belongs to the stream.  Each step gives one 64-bit word: the two halves of the state are
  combined by exclusive or and rotated by the six top bits.  Words of 32 bits are the halves of
  these, the low half first; the high half waits in the state for the next request.

  A uniform 32-bit word `w` is brought into the range `0 … k - 1` by the product `w * k`: its high
  half is an index below `k`.  Over all words the low halves of the products that give one index
  are evenly spaced, and words whose low half is below `(2 ^ 32 - k) mod k` are rejected; after
  that every index has the same number of words, `2 ^ 32 / k`.

  A choice draws words until one is accepted.  The congruence has full period, since its increment
  is odd and its multiplier is one more than a multiple of four.  So every 64-bit word, and with
  it a word that is accepted, comes within `2 ^ 128` steps, and a bound of `2 ^ 129` words is
  never reached; it makes the search structurally recursive and costs nothing.
-/
import Lindenmayer.Random.Chooser
import Lindenmayer.Random.SeedPool

namespace Lindenmayer.Random

/-! ## Choices from words -/

/-- How many words there are. -/
def wordCount : Nat := 0x100000000

/-- The index below `k` that a word selects, or none if the word is rejected. -/
def select (k : Nat) (hk : 0 < k) (w : UInt32) : Option (Fin k) :=
  let product := w.toNat * k
  if product % wordCount < (wordCount - k) % k then none
  else some ⟨product / wordCount, by
    have : w.toNat * k < wordCount * k := Nat.mul_lt_mul_of_pos_right w.toNat_lt hk
    exact Nat.div_lt_of_lt_mul this⟩

example : select 3 (by decide) 0 = none ∧ select 3 (by decide) 0xFFFFFFFF = some 2 := by decide

/-! ## The generator -/

/-- The state of the generator, its increment and a half word that was not handed out yet. -/
structure Permuted where
  state : BitVec 128
  increment : BitVec 128
  waiting : Option UInt32

namespace Permuted

/-- The multiplier of the congruence. -/
def multiplier : BitVec 128 := 0x2360ED051FC65DA44385DF649FCCF645

/-- One step of the congruence. -/
def step (g : Permuted) : Permuted :=
  { g with state := g.state * multiplier + g.increment }

/-- Joins two 64-bit numbers of two 32-bit words each, the first one higher; in each the first
    word is the lower one. -/
def join (a b c d : UInt32) : BitVec 128 :=
  b.toBitVec ++ a.toBitVec ++ (d.toBitVec ++ c.toBitVec)

/-- The generator of a seed. -/
def ofSeed (seed : Nat) : Permuted :=
  match (SeedPool.ofSeed seed).eightWords with
  | [a, b, c, d, e, f, g, h] =>
    let empty : Permuted := ⟨0, join e f g h <<< 1 ||| 1, none⟩
    let first := empty.step
    { first with state := first.state + join a b c d }.step
  | _ => ⟨0, 1, none⟩

/-- The 64-bit word of a state. -/
def word (state : BitVec 128) : BitVec 64 :=
  let high := state.extractLsb' 64 64
  let low := state.extractLsb' 0 64
  (high ^^^ low).rotateRight (state >>> 122).toNat

/-- The next 32-bit word. -/
def next (g : Permuted) : UInt32 × Permuted :=
  match g.waiting with
  | some half => (half, { g with waiting := none })
  | none =>
    let g := g.step
    let w := word g.state
    (UInt32.ofBitVec (w.extractLsb' 0 32),
      { g with waiting := some (UInt32.ofBitVec (w.extractLsb' 32 32)) })

/-- The first accepted word's index, and the generator after it; index zero should none of the words
    within the bound be accepted. -/
def choose (k : Nat) (hk : 0 < k) : (bound : Nat) → Permuted → Fin k × Permuted
  | 0, g => (⟨0, hk⟩, g)
  | bound + 1, g =>
    match g.next with
    | (w, g) =>
      match select k hk w with
      | some i => (i, g)
      | none => choose k hk bound g

instance : Chooser Permuted where
  choose g k hk := choose k hk (1 <<< 129) g

end Permuted

end Lindenmayer.Random
