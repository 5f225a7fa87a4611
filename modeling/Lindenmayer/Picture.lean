/-
  Pictures: a system derived and drawn, in a colour.

  A colour is looked up by its name in any case; a name that stands for no colour means black.  No
  character beyond ASCII has a lower case that is part of a colour's name other than black, so
  lowering the ASCII letters is enough.

  The word of a system is built and handed to the turtle with the angle and step of its
  descriptor.  A rendering keeps everything that can be seen of this: the picture or why there is
  none, the reports in their order, and the source of chance as it was left.
-/
import Lindenmayer.LSystem
import Lindenmayer.Turtle.Drawing

namespace Lindenmayer

/-! ## Colours -/

/-- The shares of red, green and blue, from zero to one. -/
structure Color where
  red : Float
  green : Float
  blue : Float

namespace Color

/-- What a name that stands for no colour means. -/
def black : Color := ⟨0, 0, 0⟩

/-- The colour of bark. -/
def brown : Color := ⟨165 / 255, 42 / 255, 42 / 255⟩

/-- The colour of a drawing if no other is named. -/
def default : Color := brown

/-- The named colours, by name. -/
def palette : List (String × Color) :=
  [("black", black), ("blue", ⟨0, 0, 1⟩), ("brown", brown), ("green", ⟨0, 128 / 255, 0⟩),
    ("red", ⟨1, 0, 0⟩)]

/-- The colour of a name. -/
def named (name : Word) : Color :=
  ((palette.find? fun (known, _) => known.toList == name.map Char.toLower).map Prod.snd).getD black

/-- The colour that a value names. -/
def ofValue : Value → Except Error Color
  | .text w => .ok (named w)
  | _ => .error .notText

end Color

/-! ## Pictures -/

/-- Segments in one colour. -/
structure Picture where
  segments : Array Segment
  color : Color

/-- What an attempt at a picture leaves. -/
structure Rendering where
  outcome : Except Error Picture
  events : List Event
  source : Source

namespace LSystem

/-- Draws a word with the angle and step of the system. -/
def drawWord (s : LSystem) (w : Word) (start : Start) : Except Error Turtle :=
  draw w (.float s.descriptor.angle) s.descriptor.step.toValue start

/-- Builds the word of the system and draws it from the given start. -/
def render (s : LSystem) (color : Color) (start : Start) (source : Source) : Rendering :=
  let trace := s.build source
  match trace.outcome with
  | .error cause => ⟨.error cause, trace.events, trace.state⟩
  | .ok w =>
    match s.drawWord w start with
    | .error cause => ⟨.error cause, trace.events, trace.state⟩
    | .ok turtle =>
      ⟨.ok ⟨turtle.segments, color⟩,
        trace.events ++ [.drawing turtle.segments.size w.length], trace.state⟩

end LSystem

end Lindenmayer
