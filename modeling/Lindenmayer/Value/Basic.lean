/-
  Values, the input of everything that checks its own parameters.

  Rules, angles, iteration counts and the like reach the library unchecked, as values of any kind.
  The functions that read them are total: each says which values it takes, and refuses the
  others with an error that shows the value as it came.

  A truth value is no number: it is neither a count nor a length where one of these is asked for.
-/
import Lindenmayer.Word

namespace Lindenmayer

/-- A value of any kind, checked by no one yet. -/
inductive Value where
  /-- The absent value. -/
  | null
  | bool (b : Bool)
  | int (n : Int)
  | float (x : Float)
  | text (w : Word)
  | list (items : List Value)
  | tuple (items : List Value)
  /-- Keys with their values, in order of insertion. -/
  | dict (entries : List (Value × Value))

/-- A numeric parameter.  Whole numbers stay whole, so that they can be shown as they were given. -/
inductive Number where
  | int (n : Int)
  | float (x : Float)

namespace Value

/-- The number that a value is, if it is one. -/
def number? : Value → Option Number
  | .int n => some (.int n)
  | .float x => some (.float x)
  | _ => none

/-- The number that a value counts as where truth values count: true is one and false is zero. -/
def countedNumber? : Value → Option Number
  | .bool b => some (.int b.toNat)
  | v => v.number?

/-- What a value holds, in order, if it is one that holds others: the items of a list or a tuple,
    the keys of a dictionary, the symbols of a text. -/
def members? : Value → Option (List Value)
  | .list items => some items
  | .tuple items => some items
  | .dict entries => some (entries.map Prod.fst)
  | .text w => some (w.map fun c => .text [c])
  | _ => none

/-- How much a value holds, if it is one that holds others. -/
def length? : Value → Option Nat
  | .list items => some items.length
  | .tuple items => some items.length
  | .dict entries => some entries.length
  | .text w => some w.length
  | _ => none

/-- The two items of a list or tuple of exactly two. -/
def pair? : Value → Option (Value × Value)
  | .list [a, b] => some (a, b)
  | .tuple [a, b] => some (a, b)
  | _ => none

end Value

namespace Number

/-- The number as a value. -/
def toValue : Number → Value
  | .int n => .int n
  | .float x => .float x

/-- The nearest double, which for a whole number of great magnitude is an infinity. -/
def toFloat : Number → Float
  | .int n => Float.ofInt n
  | .float x => x

/-- A whole number so great that no finite double is near it. -/
def isTooLarge : Number → Bool
  | .int n => !(Float.ofInt n).isFinite
  | .float _ => false

/-- The number is neither infinite nor a NaN. -/
def isFinite : Number → Bool
  | .int _ => true
  | .float x => x.isFinite

/-- The number is above zero. -/
def isPositive : Number → Bool
  | .int n => 0 < n
  | .float x => 0 < x

/-- A whole number that fits into no 64 bits, neither signed nor unsigned. -/
def isWide : Number → Bool
  | .int n => n < -0x8000000000000000 || 0xFFFFFFFFFFFFFFFF < n
  | .float _ => false

end Number

/-- The number that a value counts as where a whole number has to fit into 64 bits, as it does in
    NumPy's arrays: a wider one, like a value that is no number, makes an array of objects, which
    has neither a sine nor a finite value. -/
def Value.machineNumber? (v : Value) : Option Number :=
  v.countedNumber?.filter (!·.isWide)

end Lindenmayer
