/-
  Drawing a word with unchecked parameters.

  The parameters are checked in the order step, angle, start, and all of them before the word is
  looked at.  A step has to be finite and above zero and an angle finite.  Here a truth value
  counts as the number one or zero, and a whole number has to fit into 64 bits, signed or
  unsigned.  An angle may also be nested in lists, as long as it is the only one in them; a step
  may not, but a step that is not finite is refused as such even then.

  The start is absent, which means the point (500, 700) looking up, or whatever holds exactly three
  values: two coordinates and a heading in radians.  What they are is seen when they are used.

  The segments make one block of numbers, an array of NumPy: level by level the segments, the two
  ends of each and the two coordinates of these, and below them the lists that a coordinate is nested
  in.  So all coordinates have to be nested equally deep, and the block may have no more levels than
  are counted (`ListFault.deepest`).
-/
import Lindenmayer.Turtle.Basic

namespace Lindenmayer

/-- The only number in a value, as the value that it is and with the number of lists around it. -/
def Value.onlyNumber (v : Value) : Except Error (Value × Number × Nat) := do
  let (elements, nesting) ← v.unnested
  match elements.mapM fun e => e.machineNumber?.map fun a => (e, a) with
  | none => .error .wrongKind
  | some [] => .error (.malformedList .empty)
  | some [(e, a)] => .ok (e, a, nesting)
  | some _ => .error (.malformedList .many)

namespace Motion

/-- The length of a step. -/
def stepOf (step : Value) : Except Error Number := do
  let (_, a, nesting) ← step.onlyNumber
  if a.isFinite && nesting != 0 then .error .wrongKind
  else if a.isFinite && a.isPositive then .ok a
  else .error (.invalidParameter (.step step))

/-- The angle of a turn, given in degrees. -/
def turnOf (angle : Value) : Except Error Quantity := do
  let (e, a, nesting) ← angle.onlyNumber
  if a.isFinite then .ok ((⟨a.toFloat, e.precision, nesting⟩ : Quantity).map radians)
  else .error (.invalidParameter (.infiniteAngle angle))

/-- The motion of a step and an angle in degrees. -/
def ofValues (angle step : Value) : Except Error Motion := do
  let step ← stepOf step
  let turn ← turnOf angle
  pure ⟨step, turn⟩

end Motion

namespace Pose

/-- Where a drawing starts if nothing else is said. -/
def default : Pose :=
  ofFloats 500 700 (-circleRatio / 2)

/-- The pose that a value describes. -/
def ofValue (v : Value) : Except Error Pose :=
  match v, v.members? with
  | .null, _ => .ok default
  | _, some [x, y, heading] => .ok ⟨.given x, .given y, .given heading⟩
  | _, _ => .error .wrongKind

end Pose

/-- Where a drawing starts: at a pose, or where an unchecked value says. -/
inductive Start where
  | pose (p : Pose)
  | value (v : Value)

namespace Start

/-- The pose of a start. -/
def toPose : Start → Except Error Pose
  | pose p => .ok p
  | value v => Pose.ofValue v

end Start

namespace Segment

/-- The coordinates of both ends. -/
def coordinates (s : Segment) : List Coordinate :=
  [s.start.x, s.start.y, s.stop.x, s.stop.y]

end Segment

namespace Turtle

/-- In how many lists each coordinate of the segments is nested. -/
def nestings (t : Turtle) : List Nat :=
  t.segments.toList.flatMap fun s => s.coordinates.map Coordinate.nesting

/-- The shape that the segments have as a block of numbers.  Below its own levels are those that all
    coordinates have, of one number each; a coordinate that is nested deeper makes the block ragged
    there, as NumPy 2 finds. -/
def shape (t : Turtle) : Shape :=
  match t.nestings with
  | [] => ⟨[0], false⟩
  | n :: rest =>
    ⟨[t.segments.size, 2, 2] ++ List.replicate (rest.foldl min n) 1, rest.any (· != n)⟩

end Turtle

/-- Draws a word: the turtle after its last symbol. -/
def draw (w : Word) (angle step : Value) (start : Start) : Except Error Turtle := do
  let motion ← Motion.ofValues angle step
  let pose ← start.toPose
  let turtle ← (Turtle.start pose).run motion w
  match turtle.shape.fault? with
  | some fault => .error (.malformedList fault)
  | none => .ok turtle

end Lindenmayer
