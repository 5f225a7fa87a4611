/-
  Sources of chance, as a caller names them.

  A derivation that needs chance is given a source.  From entropy or a seed it makes a new
  generator each time, so that a seed gives the same answer whenever it is used.  A generator is
  used as it is and its stream goes on from one use to the next: `enter` says what choices are
  drawn from, and `leave` what the source is afterwards.
-/
import Lindenmayer.Error
import Lindenmayer.Random.Permuted

namespace Lindenmayer

/-- What choices are drawn from. -/
inductive Generator where
  | permuted (g : Random.Permuted)
  | script (s : Random.Script)

namespace Generator

/-- The generator of a seed. -/
def ofSeed (seed : Nat) : Generator :=
  .permuted (.ofSeed seed)

/-- The generator of a whole number.  A seed below zero has none. -/
def ofInt : Int → Except Error Generator
  | .ofNat seed => .ok (.ofSeed seed)
  | .negSucc _ => .error .negativeSeed

instance : Chooser Generator where
  choose
    | .permuted g, k, hk => (Chooser.choose g k hk).map id .permuted
    | .script s, k, hk => (Chooser.choose s k hk).map id .script

end Generator

/-- Where the choices of a derivation come from. -/
inductive Source where
  /-- A new generator for each derivation, from entropy that the caller gathered. -/
  | entropy (n : Nat)
  /-- A new generator for each derivation, from a seed. -/
  | seed (n : Int)
  /-- One generator for all derivations. -/
  | generator (g : Generator)

namespace Source

/-- The generator that a derivation draws from. -/
def enter : Source → Except Error Generator
  | .entropy n => .ok (.ofSeed n)
  | .seed n => Generator.ofInt n
  | .generator g => .ok g

/-- The source after a derivation that left the generator as given. -/
def leave : Source → Generator → Source
  | .generator _, used => .generator used
  | source, _ => source

end Source

end Lindenmayer
