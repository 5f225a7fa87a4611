/-
  The causes for which the library refuses an input, and their wording.

  Each constructor is a cause and carries what its message shows.  Causes of one family are an
  inductive type of their own.  `Error.message` is the only place where a wording stands.
-/
import Lindenmayer.Value.Literal

namespace Lindenmayer

/-- What is wrong with the rules of a table. -/
inductive RuleFault where
  /-- A token of a rule text is not a symbol, an equals sign and a production. -/
  | token (token : Word)
  /-- A rule text where pairs are asked for. -/
  | textForPairs (text : Word)
  /-- A member of the pairs is not a list or tuple of two. -/
  | notPair (member : Value)
  /-- A pair does not hold two texts. -/
  | notTexts (pair : Value)
  /-- A rule of a table does not hold two texts. -/
  | notTextRule (key production : Value)
  /-- The first text of a pair is not a single symbol. -/
  | key (key : Word)

/-- What is wrong with a parameter. -/
inductive ParameterFault where
  /-- An axiom that is not a text. -/
  | notText
  /-- An angle of a descriptor that is not a finite number above zero. -/
  | angle (got : Value)
  /-- An iteration count of a descriptor that is not a whole number from zero on. -/
  | iterations (got : Value)
  /-- A step that is not a finite number above zero. -/
  | step (got : Value)
  /-- An angle of a drawing that is infinite or a NaN. -/
  | infiniteAngle (got : Value)
  /-- An iteration count of a derivation that is not a whole number. -/
  | fractionalIterations (got : Value)
  /-- An iteration count of a derivation that is below zero. -/
  | negativeIterations (got : Int)

/-- Why nested lists do not stand for one number, or numbers not for one block of them.  The faults and
    their wording are those of NumPy's arrays. -/
inductive ListFault where
  /-- Lists of one level have different shapes; the lengths above that level are these. -/
  | ragged (lengths : List Nat)
  /-- The lists have more levels than are counted. -/
  | tooDeep
  /-- There is no number in the lists. -/
  | empty
  /-- There is more than one number in the lists. -/
  | many

/-- Why an input is refused. -/
inductive Error where
  | malformedRule (fault : RuleFault)
  | invalidParameter (fault : ParameterFault)
  | malformedList (fault : ListFault)
  /-- A closing bracket without a partner, found while counting. -/
  | unmatchedClose (position : Nat)
  /-- A closing bracket without a partner, met while drawing. -/
  | noOpenScope
  /-- A pass, numbered from one, wrote more symbols than the bound allows. -/
  | expansionLimit (pass : Nat) (bound : Int)
  | unknownStrategy (got : Value)
  | unknownPreset (name : Value)
  /-- A seed below zero. -/
  | negativeSeed
  /-- A value of a kind that the operation has no use for. -/
  | wrongKind
  /-- A value that is not a text where rule text or a name is read. -/
  | notText
  /-- Rules that were never read where a table is needed. -/
  | notTable
  /-- A choice to be made without a generator to make it. -/
  | noGenerator
  /-- A whole number with no finite double near it. -/
  | tooLarge

namespace RuleFault

/-- The wording of a fault in the rules. -/
def message : RuleFault → String
  | token t => s!"rule {(Value.text t).shown} must look like <symbol>=<production>"
  | textForPairs t => s!"expected (symbol, production) pairs, got rule text {(Value.text t).shown}"
  | notPair v => s!"rule {v.shown} must be a (symbol, production) pair"
  | notTexts v => s!"rule {v.shown} must pair two strings"
  | notTextRule k p => s!"rule Rule(symbol={k.shown}, production={p.shown}) must pair two strings"
  | key k => s!"rule key {(Value.text k).shown} must be a single symbol"

end RuleFault

namespace ParameterFault

/-- The wording of a fault in a parameter. -/
def message : ParameterFault → String
  | notText => "axiom must be a string"
  | angle v => s!"angle must be a finite number > 0, got {v.shown}"
  | iterations v => s!"iterations must be an integer >= 0, got {v.shown}"
  | step v => s!"step must be a finite number > 0, got {v.shown}"
  | infiniteAngle v => s!"angle must be finite, got {v.shown}"
  | fractionalIterations v => s!"iterations must be an integer, got {v.shown}"
  | negativeIterations n => s!"iterations must be >= 0, got {n}"

end ParameterFault

namespace ListFault

/-- How many levels of lists are counted: as many as an array of NumPy 2 has dimensions at most.  Before
    NumPy 2 they were 32. -/
def deepest : Nat := 64

/-- The wording of a fault in nested lists. -/
def message : ListFault → String
  | ragged lengths =>
    let detected := (Value.tuple (lengths.map fun (n : Nat) => .int n)).shown
    "setting an array element with a sequence. The requested array has an inhomogeneous " ++
      s!"shape after {lengths.length} dimensions. The detected shape was {detected} + " ++
      "inhomogeneous part."
  | tooDeep =>
    "setting an array element with a sequence. The requested array would exceed the " ++
      s!"maximum number of dimension of {deepest}."
  | empty =>
    "The truth value of an empty array is ambiguous. Use \x60array.size > 0\x60 to check that " ++
      "an array is not empty."
  | many =>
    "The truth value of an array with more than one element is ambiguous. " ++
      "Use a.any() or a.all()"

end ListFault

/-- The wording of an error. -/
def Error.message : Error → String
  | malformedRule fault => fault.message
  | invalidParameter fault => fault.message
  | malformedList fault => fault.message
  | unmatchedClose position => s!"unmatched ']' at position {position}"
  | noOpenScope => "']' with no matching '['"
  | expansionLimit pass bound => s!"iteration {pass} exceeded {bound} symbols"
  | unknownStrategy v => s!"{v.shown} is not a valid Strategy"
  | unknownPreset name => name.shown
  | negativeSeed => "expected non-negative integer"
  | wrongKind => "a value of another kind is needed"
  | notText => "a text is needed"
  | notTable => "a rule table is needed"
  | noGenerator => "a choice needs a generator"
  | tooLarge => "the number is too large"

/-! ## Computations that may be refused -/

/-- A computation in steps ends well only if its first step does. -/
theorem bind_ok {α β : Type} {r : Except Error α} {f : α → Except Error β} {b : β}
    (h : r >>= f = .ok b) : ∃ a, r = .ok a ∧ f a = .ok b := by
  cases r with
  | error e => nomatch h
  | ok a => exact ⟨a, rfl, h⟩

/-- What is made of the outcome of a computation comes from an outcome. -/
theorem map_ok {α β : Type} {r : Except Error α} {f : α → β} {b : β} (h : f <$> r = .ok b) :
    ∃ a, r = .ok a ∧ f a = b := by
  cases r with
  | error e => nomatch h
  | ok a => exact ⟨a, rfl, Except.ok.inj h⟩

end Lindenmayer
