/-
  The shortest decimal that reads back as a given double, and its written form.

  A positive double `m · 2 ^ q` is what reading yields for every real number in an interval
  around it, the set of reals nearer to it than to its neighbours.  Both ends of the interval
  read back as well when `m` is even, since ties go to the even mantissa.

  Among the decimals in that interval the shortest is wanted, and among those of equal length the
  nearest to the double.  For `n = 1, 2, …` the decimals of `n` digits form a grid around the
  value.  If any point of a grid lies in the interval, so does one of the two grid points next to
  the value, so it is enough to test these two; the first grid with a hit wins.  Seventeen digits
  always suffice for a double.

  All comparisons are between whole numbers: value, ends and grid points are brought over one
  common denominator first.

  A layout says which magnitudes are written positionally, with the decimal point in place, and how
  the others carry an exponent.  The digits are those of the decimal and no others: padding zeros
  stand only between the point and the digits, and for a whole number after the digits and once
  behind the point.
-/
import Lindenmayer.Decimal.Binary
import Lindenmayer.Word

namespace Lindenmayer

/-- The number `digits · 10 ^ exponent`. -/
structure Decimal where
  digits : Nat
  exponent : Int
deriving DecidableEq, Repr

namespace Decimal

/-- How many decimal digits a positive whole number has. -/
def digitCount (n : Nat) : Nat :=
  (Nat.toDigits 10 n).length

/-- The exponent of the leading decimal digit of `num / den`: the largest `e` with
    `10 ^ e ≤ num / den`, for positive `num` and `den`. -/
def leadingExponent (num den : Nat) : Int :=
  if den ≤ num then digitCount (num / den) - 1
  else -(digitCount ((den + num - 1) / num - 1) : Int)

/-- The same number without trailing zeros among the digits; zero has exponent zero. -/
def trim : (fuel : Nat) → Decimal → Decimal
  | 0, d => d
  | fuel + 1, d =>
    if d.digits ≠ 0 ∧ d.digits % 10 = 0 then trim fuel ⟨d.digits / 10, d.exponent + 1⟩ else d

/-! ## The interval of a double -/

/-- The reals that read as one double, over a common denominator: a real lies in the interval when
    it is between `low / den` and `high / den`, ends included if `closed`. -/
structure Interval where
  low : Nat
  value : Nat
  high : Nat
  den : Nat
  closed : Bool

/-- The interval of `m · 2 ^ q`.  The gap to the next double below is half as wide as the one above
    when `m` is the least normal mantissa and a smaller exponent exists. -/
def Interval.ofBinary (b : Binary) : Interval :=
  let narrow := b.mantissa = Binary.implicitBit ∧ -1074 < b.exponent
  let shift := (b.exponent - 2).toNat
  { low := (4 * b.mantissa - if narrow then 1 else 2) <<< shift
    value := (4 * b.mantissa) <<< shift
    high := (4 * b.mantissa + 2) <<< shift
    den := 1 <<< (2 - b.exponent).toNat
    closed := b.mantissa % 2 = 0 }

/-- The real `num / den` reads as the interval's double. -/
def Interval.contains (i : Interval) (num den : Nat) : Bool :=
  let low := i.low * den
  let high := i.high * den
  let x := num * i.den
  if i.closed then low ≤ x && x ≤ high else low < x && x < high

/-! ## The grids -/

/-- The decimal that the grid of `n` digits offers for a value with leading exponent `lead`, if one
    reads back: the neighbour below or the one above, of two the nearer, and of two at the same
    distance the even one. -/
def Interval.onGrid? (i : Interval) (lead : Int) (n : Nat) : Option Decimal :=
  let exponent := lead - (n - 1 : Nat)
  let up := Nat.pow 10 exponent.toNat
  let down := Nat.pow 10 (-exponent).toNat
  let below := i.value * down / (i.den * up)
  let rest := i.value * down % (i.den * up)
  let above := below + 1
  let isBelow := 2 * rest < i.den * up ∨ (2 * rest = i.den * up ∧ below % 2 = 0)
  let nearer := if isBelow then below else above
  let other := if nearer = below then above else below
  if i.contains (nearer * up) down then some ⟨nearer, exponent⟩
  else if i.contains (other * up) down then some ⟨other, exponent⟩
  else none

/-- The shortest decimal that reads back as `m · 2 ^ q`, and the nearest of that length; the exact
    value should no grid up to seventeen digits offer one, and for zero. -/
def shortest (b : Binary) : Decimal :=
  let i := Interval.ofBinary b
  let lead := leadingExponent i.value i.den
  let grids := if b.mantissa = 0 then [] else (List.range 17).map (· + 1)
  let d := (grids.findSome? (i.onGrid? lead)).getD
    ⟨(b.mantissa <<< b.exponent.toNat) * Nat.pow 5 (-b.exponent).toNat, min b.exponent 0⟩
  if d.digits = 0 then ⟨0, 0⟩ else d.trim (digitCount d.digits)

example : (Binary.ofFloat? 0.1).map shortest = some ⟨1, -1⟩ := by decide +kernel

example : (Binary.ofFloat? 5e-324).map shortest = some ⟨5, -324⟩ := by decide +kernel

example : (Binary.ofFloat? 1e23).map shortest = some ⟨1, 23⟩ := by decide +kernel

/-! ## The written form -/

/-- Where positional writing ends, and how wide an exponent is written at least. -/
structure Layout where
  /-- The least leading exponent that is written positionally. -/
  leastPositional : Int
  /-- The greatest leading exponent that is written positionally. -/
  mostPositional : Int
  /-- Exponents have at least this many digits. -/
  exponentWidth : Nat

/-- The decimal digits of a whole number. -/
def digitsOf (n : Nat) : Word :=
  Nat.toDigits 10 n

/-- An exponent with its mark and sign. -/
def Layout.exponentText (l : Layout) (e : Int) : Word :=
  let digits := digitsOf e.natAbs
  'e' :: (if e < 0 then '-' else '+')
    :: (List.replicate (l.exponentWidth - digits.length) '0' ++ digits)

/-- The written form of a decimal.  With leading exponent `e` and positional writing, the point
    stands after digit `e + 1`, and `-e` zeros come first when `e` is negative. -/
def Layout.write (l : Layout) (d : Decimal) : Word :=
  let digits := digitsOf d.digits
  let lead := d.exponent + digits.length - 1
  if lead < l.leastPositional ∨ l.mostPositional < lead then
    match digits with
    | [] => []
    | [first] => first :: l.exponentText lead
    | first :: rest => first :: '.' :: rest ++ l.exponentText lead
  else if lead < 0 then
    '0' :: '.' :: List.replicate (-lead - 1).toNat '0' ++ digits
  else
    let whole := digits.take (lead + 1).toNat
    let fraction := digits.drop (lead + 1).toNat
    whole ++ List.replicate d.exponent.toNat '0' ++
      '.' :: (if fraction = [] then ['0'] else fraction)

/-- The written form of a double, from the shortest decimal that reads back as it. -/
def Layout.writeFloat (l : Layout) (x : Float) : Word :=
  match Binary.ofFloat? x with
  | some b => (if b.negative then ['-'] else []) ++ l.write (shortest b)
  | none =>
    if x.isNaN then ['n', 'a', 'n'] else if x < 0 then ['-', 'i', 'n', 'f'] else ['i', 'n', 'f']

end Decimal

end Lindenmayer
