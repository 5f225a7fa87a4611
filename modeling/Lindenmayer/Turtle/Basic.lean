/-
  The turtle: a word as a drawing.

  The turtle has a position and a heading, and reads a word symbol by symbol.  It moves forward,
  with or without drawing a segment, turns by a fixed angle, and saves and restores where it
  stands; any other symbol means nothing to it.  The y axis points down, so that a turn by a
  positive angle is clockwise on the screen, and a heading of minus a quarter turn is up.

  Saved poses form a stack, which is as high as there are scopes open.  A restore needs a saved
  pose, and a move or turn needs coordinates that are numbers.  With coordinates and an angle that
  are doubles a restore without a saved pose is the only way in which reading a word can fail.
-/
import Lindenmayer.Turtle.Coordinate

namespace Lindenmayer

/-! ## Places and segments -/

/-- A place in the plane. -/
structure Point where
  x : Coordinate
  y : Coordinate

/-- A straight line from one point to another. -/
structure Segment where
  start : Point
  stop : Point

/-- Where the turtle stands, and the direction it looks in, in radians. -/
structure Pose where
  x : Coordinate
  y : Coordinate
  heading : Coordinate

namespace Pose

/-- The pose of three doubles. -/
def ofFloats (x y heading : Float) : Pose :=
  ⟨.ofFloat x, .ofFloat y, .ofFloat heading⟩

/-- The place of the pose without its direction. -/
def point (p : Pose) : Point :=
  ⟨p.x, p.y⟩

end Pose

/-- The ratio of a circle's circumference to its diameter, as near as a double comes. -/
def circleRatio : Float := 3.141592653589793

/-- An angle in degrees as one in radians. -/
def radians (degrees : Float) : Float :=
  degrees * (circleRatio / 180)

/-- How far one move goes, and by how much one turn turns, in radians. -/
structure Motion where
  step : Number
  turn : Quantity

namespace Motion

/-- The share of a step in a direction that is given by its cosine or sine. -/
def stride (m : Motion) (share : Quantity) : Quantity :=
  (Quantity.ofNumber m.step share.precision).combine (· * ·) share

/-- The pose one step ahead. -/
def ahead (m : Motion) (p : Pose) : Except Error Pose := do
  let x ← p.x.changed (· + ·) (m.stride (← p.heading.apply Float.cos))
  let y ← p.y.changed (· + ·) (m.stride (← p.heading.apply Float.sin))
  pure ⟨x, y, p.heading⟩

/-- The pose after a turn, the heading changed by addition or subtraction. -/
def turned (m : Motion) (change : Float → Float → Float) (p : Pose) : Except Error Pose := do
  let heading ← p.heading.changed change m.turn
  pure { p with heading }

end Motion

/-! ## Commands -/

/-- What a symbol means to the turtle. -/
inductive Command where
  /-- Move ahead and draw the segment. -/
  | draw
  /-- Move ahead. -/
  | move
  /-- Turn against the clock. -/
  | turnBack
  /-- Turn with the clock. -/
  | turn
  /-- Save the pose. -/
  | save
  /-- Go back to the pose saved last. -/
  | restore
  /-- Do nothing. -/
  | ignore
deriving DecidableEq

namespace Command

/-- The command that a symbol stands for. -/
def ofSymbol (c : Symbol) : Command :=
  if c = 'F' then .draw
  else if c = 'f' then .move
  else if c = '+' then .turnBack
  else if c = '-' then .turn
  else if c = '[' then .save
  else if c = ']' then .restore
  else .ignore

end Command

/-! ## The turtle -/

/-- The turtle, the poses it saved, the last one first, and the segments drawn so far. -/
structure Turtle where
  pose : Pose
  saved : List Pose
  segments : Array Segment

namespace Turtle

/-- A turtle that has drawn nothing yet. -/
def start (p : Pose) : Turtle :=
  ⟨p, [], #[]⟩

/-- The number of scopes that are open. -/
def depth (t : Turtle) : Nat :=
  t.saved.length

/-- Obeys one command. -/
def obey (m : Motion) (t : Turtle) : Command → Except Error Turtle
  | .draw => do
    let pose ← m.ahead t.pose
    pure { t with pose, segments := t.segments.push ⟨t.pose.point, pose.point⟩ }
  | .move => do
    let pose ← m.ahead t.pose
    pure { t with pose }
  | .turnBack => do
    let pose ← m.turned (· - ·) t.pose
    pure { t with pose }
  | .turn => do
    let pose ← m.turned (· + ·) t.pose
    pure { t with pose }
  | .save => .ok { t with saved := t.pose :: t.saved }
  | .restore =>
    match t.saved with
    | [] => .error .noOpenScope
    | pose :: saved => .ok { t with pose, saved }
  | .ignore => .ok t

/-- Reads a word. -/
def run (m : Motion) (t : Turtle) (w : Word) : Except Error Turtle :=
  w.foldlM (fun t c => t.obey m (.ofSymbol c)) t

/-- Reading a word in two parts is reading it whole. -/
theorem run_append (m : Motion) (t : Turtle) (u v : Word) :
    t.run m (u ++ v) = t.run m u >>= fun t => t.run m v :=
  List.foldlM_append

end Turtle

end Lindenmayer
