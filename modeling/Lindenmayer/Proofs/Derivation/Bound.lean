/-
  What a bound does to a derivation.

  The bound is compared with a running length in the middle of a pass.  For the derivation as a
  whole this comes to a condition on the words that the same derivation writes without a bound: the
  first pass that EXCEEDS the bound — it starts from a word that is not empty and writes one that is
  longer — ends the derivation and is named, and if there is none, the bound makes no difference.
  In particular the axiom is never compared with it, and neither is the empty word.
-/
import Mathlib.Order.Bounds.Defs
import Lindenmayer.Proofs.Derivation.Stages

namespace Lindenmayer

variable {σ α : Type} [RulePart α]

variable [BEq α] [LawfulRulePart α]

end Lindenmayer
