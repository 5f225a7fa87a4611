/-
  Passes over a word, one after the other.

  In one pass every symbol of a word is replaced, from left to right.  What a symbol is replaced by
  may depend on a state, which goes from symbol to symbol, and on nothing else: no symbol sees its
  neighbours.  The pass keeps the running length of what it writes and stops as soon as a bound is
  exceeded, after the replacement that exceeded it was drawn and before anything behind it is.  The
  state comes out either way.

  What a symbol is replaced by is a part of a rule, as a rule a word.  Something without a length
  ends the pass where it is met, and something with a length that is no word ends it after the
  last symbol, when the parts are joined.

  A run starts from a word and a state and does a given number of passes, each on what the last
  one wrote.  It ends early at the first pass that fails, such as one that exceeds the bound and is
  named then, counted from one.  Its trace keeps the lengths of all words that finished passes
  wrote, and the state it left, whether the run came to its end or not.

  Every finished pass is reported with its number and the length of the word it wrote, and every
  finished drawing with the number of its segments and the length of the word it was drawn from.  A
  failure reports nothing, so that the events of a failed run are those of the passes before it.
-/
import Lindenmayer.Error
import Lindenmayer.Rule

namespace Lindenmayer

/-! ## One pass -/

/-- What a symbol is replaced by, with a state that goes from symbol to symbol. -/
abbrev Replacement (σ α : Type) := Symbol → σ → α × σ

/-- The bound that a total exceeds, if there is a bound and it does. -/
def exceeded? (bound : Option Int) (total : Nat) : Option Int :=
  bound.filter (· < (total : Int))

/-- A bound is exceeded by greater totals only, and a bound below zero by every total. -/
theorem exceeded?_eq_some_iff {bound : Option Int} {total : Nat} {m : Int} :
    exceeded? bound total = some m ↔ bound = some m ∧ m < total := by
  simp [exceeded?, Option.filter_eq_some_iff]

/-- The word that several parts make, one after the other; the parts come last one first. -/
def joinReversed {α : Type} [RulePart α] : (written : List α) → (behind : Word) → Except Error Word
  | [], behind => .ok behind
  | part :: written, behind =>
    match RulePart.toValue part with
    | .text w => joinReversed written (w ++ behind)
    | _ => .error .wrongKind

/-- The pass over the rest of a word, with the length of what was written before and what was
    written itself, last part first. -/
@[specialize] def passFrom {σ α : Type} [RulePart α] (replace : Replacement σ α)
    (bound : Option Int) (number : Nat) :
    (rest : Word) → (total : Nat) → (written : List α) → σ → Except Error Word × σ
  | [], _, written, state => (joinReversed written [], state)
  | c :: rest, total, written, state =>
    match replace c state with
    | (production, state) =>
      match (RulePart.toValue production).length? with
      | none => (.error .wrongKind, state)
      | some length =>
        match exceeded? bound (total + length) with
        | some m => (.error (.expansionLimit number m), state)
        | none => passFrom replace bound number rest (total + length) (production :: written) state

/-- One pass over a word, with its number: the word that it writes or why it ended, and the state
    after it. -/
def pass {σ α : Type} [RulePart α] (replace : Replacement σ α) (bound : Option Int) (number : Nat)
    (w : Word) (state : σ) : Except Error Word × σ :=
  passFrom replace bound number w 0 [] state

example : pass (fun c (n : Nat) => ([c, c], n + 1)) none 1 ['F', '+'] 0 =
    (.ok ['F', 'F', '+', '+'], 2) := by rfl

example : pass (fun c (n : Nat) => ([c, c], n + 1)) (some 3) 1 ['F', '+', 'F'] 0 =
    (.error (.expansionLimit 1 3), 2) := by rfl

/-! ## Runs -/

/-- Where a run stands: the current word, the lengths after each pass so far, and the state. -/
structure Progress (σ : Type) where
  word : Word
  lengths : Array Nat
  state : σ

/-- What a run leaves: its last word or why it ended, the lengths after each finished pass, and the
    state. -/
structure Trace (σ : Type) where
  outcome : Except Error Word
  lengths : Array Nat
  state : σ

namespace Trace

/-- The trace of a run that ended before its first pass. -/
def failed {σ : Type} (cause : Error) (state : σ) : Trace σ :=
  ⟨.error cause, #[], state⟩

/-- The same trace with another view of the state. -/
def mapState {σ τ : Type} (f : σ → τ) (t : Trace σ) : Trace τ :=
  ⟨t.outcome, t.lengths, f t.state⟩

end Trace

/-- The given number of passes from where a run stands. -/
def runFrom {σ α : Type} [RulePart α] (replace : Replacement σ α) (bound : Option Int) :
    (passes : Nat) → Progress σ → Trace σ
  | 0, p => ⟨.ok p.word, p.lengths, p.state⟩
  | passes + 1, p =>
    match pass replace bound (p.lengths.size + 1) p.word p.state with
    | (.ok w, state) => runFrom replace bound passes ⟨w, p.lengths.push w.length, state⟩
    | (.error cause, state) => ⟨.error cause, p.lengths, state⟩

/-- The given number of passes over a word. -/
def run {σ α : Type} [RulePart α] (replace : Replacement σ α) (bound : Option Int) (passes : Nat)
    (w : Word) (state : σ) : Trace σ :=
  runFrom replace bound passes ⟨w, #[], state⟩

/-! ## Events -/

/-- One report. -/
inductive Event where
  /-- A pass, numbered from one, wrote a word of this length. -/
  | pass (number length : Nat)
  /-- A drawing of so many segments was made from a word of this length. -/
  | drawing (segments length : Nat)
deriving DecidableEq

namespace Event

/-- The wording of a report. -/
def message : Event → String
  | pass number length => s!"iteration {number}: {length} symbols"
  | drawing segments length => s!"generated {segments} segments from {length} symbols"

end Event

/-- The reports of a run: one for each finished pass. -/
def Trace.events {σ : Type} (t : Trace σ) : List Event :=
  t.lengths.toList.mapIdx fun i length => .pass (i + 1) length

end Lindenmayer
