/-
  Nested lists of numbers.

  Where one number is asked for, lists and tuples of numbers, nested to any depth, are looked
  into.  The shape of such a value is the sequence of its lengths, level by level; the lists of one
  level must have equal shapes, or the value is ragged from that level on.  What is no list or
  tuple is an element, also a text or a dictionary.  This is how NumPy finds the dimensions of an
  array in what the array is made of.
-/
import Lindenmayer.Value.Basic

namespace Lindenmayer

/-- The lengths of nested lists, level by level, and whether something below the last level is at
    odds. -/
structure Shape where
  lengths : List Nat
  ragged : Bool
deriving DecidableEq

namespace Shape

/-- The shape of a single element. -/
def element : Shape := ⟨[], false⟩

/-- The levels that two sequences of lengths have in common. -/
def commonLengths : List Nat → List Nat → List Nat
  | m :: ms, n :: ns => if m = n then m :: commonLengths ms ns else []
  | _, _ => []

/-- The shape that two neighbours have in common. -/
def meet (s t : Shape) : Shape :=
  ⟨commonLengths s.lengths t.lengths, s.ragged || t.ragged || s.lengths != t.lengths⟩

/-- The shape of a list whose members have the given shapes. -/
def ofMembers : List Shape → Shape
  | [] => ⟨[0], false⟩
  | s :: shapes =>
    let inner := shapes.foldl meet s
    ⟨(shapes.length + 1) :: inner.lengths, inner.ragged⟩

end Shape

namespace Value

mutual

/-- The shape of a value. -/
def shape : Value → Shape
  | .list items => .ofMembers (shapes items)
  | .tuple items => .ofMembers (shapes items)
  | _ => .element

/-- The shapes of several values. -/
def shapes : List Value → List Shape
  | [] => []
  | v :: vs => v.shape :: shapes vs

end

mutual

/-- The elements of a value, from left to right. -/
def elements : Value → List Value
  | .list items => elementsOf items
  | .tuple items => elementsOf items
  | v => [v]

/-- The elements of several values. -/
def elementsOf : List Value → List Value
  | [] => []
  | v :: vs => v.elements ++ elementsOf vs

end

example : shape (.list [.tuple [.int 1, .int 2], .list [.int 3, .null]]) = ⟨[2, 2], false⟩ := by
  decide +kernel

example : shape (.list [.list [.int 1], .int 2]) = ⟨[2], true⟩ := by decide +kernel

end Value

end Lindenmayer
