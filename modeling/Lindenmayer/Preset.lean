/-
  The systems that are known by name.
-/
import Lindenmayer.LSystem

namespace Lindenmayer

/-- A named system: its strategy and its parameters. -/
structure Preset where
  name : String
  strategy : Strategy
  descriptor : Descriptor

namespace Preset

/-- A text value. -/
def text (s : String) : Value :=
  .text s.toList

/-- A dragon curve. -/
def dragon : Preset where
  name := "deterministic"
  strategy := .deterministic
  descriptor :=
    { initiator := "X Y".toList
      rules := .value (text "X=X+YF+ Y=-FX-Y")
      angle := 90
      iterations := 10
      step := .int 6 }

/-- A weed whose branches fall on the left, the right or both sides. -/
def weed : Preset where
  name := "stochastic"
  strategy := .stochastic
  descriptor :=
    { initiator := "F".toList
      rules := .value (text "F=F[+F]F[-F]F F=F[+F]F F=F[-F]F")
      angle := 25.7
      iterations := 5
      step := .int 7 }

/-- A plant with a stem. -/
def plant : Preset where
  name := "contextual"
  strategy := .contextual
  descriptor :=
    { initiator := "F X".toList
      rules := .value
        (.tuple [.tuple [text "X", text "F-[[X]+X]+F[+FX]-X"], .tuple [text "F", text "FF"]])
      angle := 25
      iterations := 5
      step := .int 7 }

/-- All presets. -/
def all : List Preset := [dragon, weed, plant]

/-- The preset that a value names; a value that can be no key is not even looked for. -/
def ofValue (name : Value) : Except Error Preset :=
  if name.isKey then
    match all.find? fun p => text p.name == name with
    | some p => .ok p
    | none => .error (.unknownPreset name)
  else .error .wrongKind

/-- The system of the preset that a value names. -/
def system (name : Value) (bound : Option Int) : Except Error LSystem := do
  let p ← ofValue name
  LSystem.ofDescriptor p.strategy p.descriptor bound

end Preset

end Lindenmayer
