/-
  Systems: the checked parameters of a derivation, with its strategy and the table read from its
  rules.

  A descriptor holds the axiom, here called the initiator, the rules as they were given, the
  turning angle in degrees, the number of iterations and the length of a step.  The rules are kept
  as they came; it is the strategy of a system that asks for a form of them.

  `Descriptor.ofValues` is the only check.  It refuses the first bad parameter in the order axiom,
  angle, iterations, step; a truth value is no number here.  The angle becomes a double, while the
  step stays the number that it was.

  A system is checked when it is made, and from then on its word can be built any number of times.
  Building needs a source of chance, which comes back as the build left it: systems that share a
  generator are built one after the other from the same source, each taking the stream up where
  the last one left it.
-/
import Lindenmayer.Derivation.Basic

namespace Lindenmayer

/-! ## Descriptors -/

/-- The parameters of a system. -/
structure Descriptor where
  initiator : Word
  rules : Rules
  angle : Float
  iterations : Nat
  step : Number

namespace Descriptor

/-- A finite number above zero. -/
def positive (v : Value) (fault : Value → ParameterFault) : Except Error Number :=
  match v.number? with
  | none => .error (.invalidParameter (fault v))
  | some a =>
    if a.isTooLarge then .error .tooLarge
    else if a.isFinite && a.isPositive then .ok a
    else .error (.invalidParameter (fault v))

/-- A text. -/
def textOf : Value → Except Error Word
  | .text w => .ok w
  | _ => .error (.invalidParameter .notText)

/-- A whole number from zero on. -/
def countOf (v : Value) : Except Error Nat :=
  match v with
  | .int (.ofNat n) => .ok n
  | _ => .error (.invalidParameter (.iterations v))

/-- The descriptor of unchecked parameters. -/
def ofValues (initiator : Value) (rules : Rules) (angle iterations step : Value) :
    Except Error Descriptor := do
  let initiator ← textOf initiator
  let angle ← positive angle .angle
  let iterations ← countOf iterations
  let step ← positive step .step
  pure ⟨initiator, rules, angle.toFloat, iterations, step⟩

/-- The parameters in their literal forms, in the order in which they are given. -/
def fields (d : Descriptor) : List (String × Word) :=
  [("axiom", (Value.text d.initiator).literal), ("rules", d.rules.literal),
    ("angle_deg", (Value.float d.angle).literal), ("iterations", intLiteral d.iterations),
    ("step", d.step.toValue.literal)]

/-- The literal form of the parameters alone. -/
def parameters (d : Descriptor) : Word :=
  tupleLiteral (d.fields.map Prod.snd)

/-- The literal form of a descriptor. -/
def literal (d : Descriptor) : Word :=
  "LSystem(".toList ++ commaSeparated (d.fields.map fun (name, v) => name.toList ++ '=' :: v) ++
    [')']

end Descriptor

/-! ## Systems -/

/-- A descriptor, how its word is derived, and the bound on the length of its words. -/
structure LSystem where
  strategy : Strategy
  descriptor : Descriptor
  table : RuleTable Word
  bound : Option Int

namespace LSystem

/-- The system of a checked descriptor. -/
def ofDescriptor (strategy : Strategy) (d : Descriptor) (bound : Option Int) :
    Except Error LSystem := do
  let table ← strategy.readTable d.rules
  pure ⟨strategy, d, table, bound⟩

/-- The system of unchecked parameters. -/
def ofValues (strategy initiator : Value) (rules : Rules) (angle iterations step : Value)
    (bound : Option Int) : Except Error LSystem := do
  let strategy ← Strategy.ofValue strategy
  let d ← Descriptor.ofValues initiator rules angle iterations step
  ofDescriptor strategy d bound

/-- The system of unchecked parameters that a user entered, always a deterministic one. -/
def custom (initiator : Value) (rules : Rules) (angle iterations step : Value)
    (bound : Option Int) : Except Error LSystem := do
  let d ← Descriptor.ofValues initiator rules angle iterations step
  ofDescriptor .deterministic d bound

/-- Builds the word of the system. -/
def build (s : LSystem) (source : Source) : Trace Source :=
  deriveBy s.strategy s.table s.bound s.descriptor.iterations s.descriptor.initiator source

/-- The literal form of a system. -/
def literal (s : LSystem) : Word :=
  s.strategy.systemName.toList ++ '(' :: s.descriptor.literal ++ [')']

end LSystem

end Lindenmayer
