/-
  Coordinates: the numbers that the turtle counts with.

  A coordinate is either a value as it was given or a quantity that was computed.  A given value
  is looked at only when something is computed from it, and a number takes the precision of what it
  is computed with.  A quantity has a precision of its own.  Directions are where quantities come
  from: the sine of a truth value has half precision, that of any other number double precision.

  A quantity also keeps in how many lists its number is nested, as an angle or a coordinate may be
  given in lists.  What is computed from a nested number is nested as deep.  A given number in
  lists is a quantity from the start and has the precision of its sine.

  All this is the arithmetic of NumPy 2, where a given number yields to the precision of a
  computed one.
-/
import Lindenmayer.Decimal.Binary
import Lindenmayer.Error
import Lindenmayer.Value.Shape

namespace Lindenmayer

/-! ## Quantities -/

/-- A computed number, with how exactly it is kept and in how many lists it is nested. -/
structure Quantity where
  value : Float
  precision : Precision
  nesting : Nat

namespace Quantity

/-- A float as a quantity. -/
def ofFloat (x : Float) : Quantity :=
  ⟨x, .double, 0⟩

/-- A number as a quantity of the given precision. -/
def ofNumber (a : Number) (precision : Precision) : Quantity :=
  ⟨precision.round a.toFloat, precision, 0⟩

/-- The value of a function at a quantity. -/
def map (f : Float → Float) (q : Quantity) : Quantity :=
  { q with value := q.precision.round (f q.value) }

/-- What an operation makes of two quantities. -/
def combine (f : Float → Float → Float) (p q : Quantity) : Quantity :=
  let precision := p.precision.finer q.precision
  ⟨precision.round (f p.value q.value), precision, max p.nesting q.nesting⟩

end Quantity

/-- Why a shape is none of a block of numbers, if it is not, by the rules of NumPy 2 for building an
    array: a ragged shape is called ragged while another level could be counted, and too deep where
    none could. -/
def Shape.fault? (s : Shape) : Option ListFault :=
  let levels := s.lengths.length
  if s.ragged && levels < ListFault.deepest then some (.ragged s.lengths)
  else if s.ragged || ListFault.deepest < levels then some .tooDeep
  else none

namespace Value

/-- The precision of what is computed from a value alone: that of NumPy's functions, which take a
    truth value to half precision and any number to double precision. -/
def precision : Value → Precision
  | .bool _ => .half
  | _ => .double

/-- The elements of a value that may be nested in lists, with the number of lists around each. -/
def unnested (v : Value) : Except Error (List Value × Nat) :=
  match v.shape.fault? with
  | some fault => .error (.malformedList fault)
  | none => .ok (v.elements, v.shape.lengths.length)

end Value

/-! ## Coordinates -/

/-- One coordinate of a place or a direction. -/
inductive Coordinate where
  | given (v : Value)
  | computed (q : Quantity)

namespace Coordinate

/-- A float as a coordinate. -/
def ofFloat (x : Float) : Coordinate :=
  .given (.float x)

/-- The number that a given value counts as here, which has to have a double near it. -/
def numberOf (v : Value) : Except Error Number :=
  match v.countedNumber? with
  | some a => if a.isTooLarge then .error .tooLarge else .ok a
  | none => .error .wrongKind

/-- The coordinate as a number to compute with beside a quantity. -/
def beside (q : Quantity) : Coordinate → Except Error Quantity
  | given v => do
    match ← v.unnested with
    | ([e], 0) => (Quantity.ofNumber · q.precision) <$> numberOf e
    | ([e], nesting) => (fun a => ⟨a.toFloat, e.precision, nesting⟩) <$> numberOf e
    | _ => .error .wrongKind
  | computed p => .ok p

/-- The coordinate changed by a quantity. -/
def changed (f : Float → Float → Float) (c : Coordinate) (q : Quantity) : Except Error Coordinate :=
  (fun p => .computed (p.combine f q)) <$> c.beside q

/-- The value of a function, such as the sine, at a coordinate.  A whole number has to fit into 64
    bits. -/
def apply (f : Float → Float) : Coordinate → Except Error Quantity
  | given v => do
    match ← v.unnested with
    | ([e], nesting) =>
      match e.machineNumber? with
      | some a => .ok ((⟨a.toFloat, e.precision, nesting⟩ : Quantity).map f)
      | none => .error .wrongKind
    | _ => .error .wrongKind
  | computed q => .ok (q.map f)

/-- The number of a coordinate, if it is a single number with a double near it. -/
def toFloat : Coordinate → Except Error Float
  | given v => Number.toFloat <$> numberOf v
  | computed q => if q.nesting = 0 then .ok q.value else .error .wrongKind

/-- The number of a coordinate that was computed, or that something was computed from; zero for a
    value that is no number. -/
def value : Coordinate → Float
  | given v =>
    match v.elements with
    | [e] => (e.countedNumber?.map Number.toFloat).getD 0
    | _ => 0
  | computed q => q.value

/-- In how many lists the number of a coordinate is nested. -/
def nesting : Coordinate → Nat
  | given v => v.shape.lengths.length
  | computed q => q.nesting

end Coordinate

end Lindenmayer
