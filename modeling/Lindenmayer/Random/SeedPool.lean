/-
  Seed material: from a seed of any size to words that look independent.

  The seed is cut into 32-bit words and stirred into a pool of four.  The first four words are
  hashed into their places, then every word of the pool is mixed into every other one, and any
  further seed words into all four.  Each hash multiplies by a constant that itself changes with
  every use, so that equal words in different places leave different traces.  The output hashes
  the pool once more, around and around for as many words as are wanted.  All arithmetic wraps at
  32 bits.
-/

namespace Lindenmayer.Random

/-- The 32-bit words of a seed, lowest first; at least one. -/
def seedWords (seed : Nat) : List UInt32 :=
  (List.range (seed.log2 / 32 + 1)).map fun i => UInt32.ofNat (seed >>> (32 * i))

/-- A hash of a word under a running constant, and the constant after it, which is also the one that
    the word is multiplied by. -/
def hashWord (multiplier constant word : UInt32) : UInt32 × UInt32 :=
  let next := constant * multiplier
  let product := (word ^^^ constant) * next
  (product ^^^ (product >>> 16), next)

/-- Two words mixed into one. -/
def mixWords (x y : UInt32) : UInt32 :=
  let r := 0xCA01F9DD * x - 0x4973F715 * y
  r ^^^ (r >>> 16)

/-- Four words and the constant of the next hash. -/
structure SeedPool where
  words : Vector UInt32 4
  constant : UInt32

namespace SeedPool

/-- Hashes a word for one place of the pool. -/
def hash (pool : SeedPool) (word : UInt32) : UInt32 × SeedPool :=
  let (hashed, constant) := hashWord 0x931E8875 pool.constant word
  (hashed, ⟨pool.words, constant⟩)

/-- Puts the hash of a word into a place. -/
def fill (pool : SeedPool) (place : Fin 4) (word : UInt32) : SeedPool :=
  let (hashed, pool) := pool.hash word
  ⟨pool.words.set place hashed, pool.constant⟩

/-- Mixes the hash of a word into what stands in a place. -/
def absorb (pool : SeedPool) (place : Fin 4) (word : UInt32) : SeedPool :=
  let (hashed, pool) := pool.hash word
  ⟨pool.words.set place (mixWords pool.words[place] hashed), pool.constant⟩

/-- Mixes every word of the pool into every other one, source by source. -/
def stir (pool : SeedPool) : SeedPool :=
  (List.finRange 4).foldl
    (fun pool source =>
      ((List.finRange 4).filter (· ≠ source)).foldl
        (fun pool place => pool.absorb place pool.words[source]) pool)
    pool

/-- The pool of a seed. -/
def ofSeed (seed : Nat) : SeedPool :=
  let words := seedWords seed
  let empty : SeedPool := ⟨Vector.replicate 4 0, 0x43B0D7E5⟩
  let filled := (List.finRange 4).foldl
    (fun pool place => pool.fill place (words.getD place 0)) empty
  (words.drop 4).foldl
    (fun pool word => (List.finRange 4).foldl (fun pool place => pool.absorb place word) pool)
    filled.stir

/-- The first words of the pool's output, with the constant of the hash that they start from. -/
def output (pool : SeedPool) : (count : Nat) → (place : Fin 4) → (constant : UInt32) → List UInt32
  | 0, _, _ => []
  | count + 1, place, constant =>
    let (hashed, next) := hashWord 0x58F38DED constant pool.words[place]
    hashed :: output pool count (place + 1) next

/-- Eight words of output. -/
def eightWords (pool : SeedPool) : List UInt32 :=
  pool.output 8 0 0x8B51F9DD

end SeedPool

end Lindenmayer.Random
