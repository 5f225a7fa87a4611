/-
  Choosing: what a derivation asks of a source of chance.

  A chooser has a state, and makes one choice among `k` candidates at a time, for a positive `k`.
  The chosen index comes as a `Fin k`, so a choice out of range cannot be expressed, and no user
  of a chooser checks one.  Everything that is random in the library is written for an arbitrary
  chooser.

  The simplest one reads its choices from a list, a `Script`.  The `i`-th choice among `k`
  candidates, counted from zero, is draw `i` modulo `k`, which for a draw below zero is counted
  from the end, and the list of draws starts again when it ends; an empty list stands for a single
  zero.  The script keeps the number of candidates of every choice that was asked for, which also
  says where in the list it is.
-/

namespace Lindenmayer

/-- States from which choices can be drawn. -/
class Chooser (σ : Type) where
  /-- One choice among `k` candidates, and the state after it. -/
  choose : σ → (k : Nat) → 0 < k → Fin k × σ

/-! ## Scripts -/

namespace Random

/-- Draws to be handed out, and the number of candidates of every choice so far. -/
structure Script where
  draws : Array Int
  asked : Array Nat := #[]

namespace Script

/-- The draw that the next choice is made with. -/
def draw (s : Script) : Int :=
  s.draws.getD (s.asked.size % s.draws.size) 0

/-- The candidate among `k` that a draw stands for. -/
def index (draw : Int) (k : Nat) (hk : 0 < k) : Fin k :=
  ⟨(draw % k).toNat, by
    have := Int.emod_nonneg draw (b := k) (by omega)
    have := Int.emod_lt_of_pos draw (b := k) (by omega)
    omega⟩

@[simp] theorem val_index_natCast (draw k : Nat) (hk : 0 < k) :
    (index draw k hk : Nat) = draw % k := rfl

instance : Chooser Script where
  choose s k hk := (index s.draw k hk, { s with asked := s.asked.push k })

end Script

end Random

end Lindenmayer
