/-
  A finite double as the number it stands for.

  A double other than an infinity or a NaN is `± mantissa · 2 ^ exponent` for whole numbers
  `mantissa` and `exponent`.  The library prints and rounds doubles through this form only, in exact
  arithmetic on `Nat` and `Int`, so that nothing about their texts rests on float operations.

  A quotient of whole numbers is rounded to the nearest whole number, and of two at the same
  distance to the even one.  On it rests the rounding of a double to half precision.  A number of
  half precision is a multiple of 2^-24 with at most eleven significant bits, below 65536; what
  rounds to 65536 or above is an infinity.
-/

namespace Lindenmayer

/-- The number `± mantissa · 2 ^ exponent`. -/
structure Binary where
  negative : Bool
  mantissa : Nat
  exponent : Int
deriving DecidableEq, Repr

namespace Binary

/-- The weight of the implicit bit of a mantissa, just above the 52 bits that are stored. -/
def implicitBit : Nat := 1 <<< 52

/-- The number that a finite double stands for: the stored bits of the mantissa, the implicit one
    above them unless the exponent field is zero, and a bias of 1075 that makes the mantissa
    whole.  An infinity or a NaN has none. -/
def ofFloat? (x : Float) : Option Binary :=
  let bits := x.toBits.toNat
  let field := (bits >>> 52) % 2048
  let stored := bits % implicitBit
  if field = 2047 then none
  else some {
    negative := bits >>> 63 = 1
    mantissa := if field = 0 then stored else stored + implicitBit
    exponent := (max field 1 : Nat) - 1075 }

/-- The magnitude as a quotient of two whole numbers. -/
def ratio (b : Binary) : Nat × Nat :=
  (b.mantissa <<< b.exponent.toNat, 1 <<< (-b.exponent).toNat)

example : ofFloat? 1.0 = some ⟨false, implicitBit, -52⟩ := by decide +kernel

example : ofFloat? (-0.0) = some ⟨true, 0, -1074⟩ := by decide +kernel

end Binary

/-! ## Rounding -/

/-- The nearest whole number to a quotient; a half goes to the even neighbour. -/
def roundQuotient (num den : Nat) : Nat :=
  let below := num / den
  let rest := num % den
  if 2 * rest < den ∨ (2 * rest = den ∧ below % 2 = 0) then below else below + 1

namespace Binary

/-- The magnitude in units of 2^-24, rounded to eleven significant bits. -/
def halfUnits (b : Binary) : Nat :=
  let num := b.ratio.1 <<< 24
  let den := b.ratio.2
  let spare := (num / den).log2 - 10
  roundQuotient num (den <<< spare) <<< spare

end Binary

/-- How exactly computed numbers are kept. -/
inductive Precision where
  | half
  | double
deriving DecidableEq

namespace Precision

/-- The nearest number of half precision. -/
def roundHalf (x : Float) : Float :=
  match Binary.ofFloat? x with
  | none => x
  | some b =>
    let units := b.halfUnits
    let magnitude := if units < 1 <<< 40 then Float.ofNat units / 16777216 else 1 / 0
    if b.negative then -magnitude else magnitude

/-- The nearest number of a precision. -/
def round : Precision → Float → Float
  | .half, x => roundHalf x
  | .double, x => x

/-- The finer of two precisions, which is that of a result computed from both. -/
def finer : Precision → Precision → Precision
  | .half, .half => .half
  | _, _ => .double

end Precision

example : (Binary.ofFloat? 0.1).map Binary.halfUnits = some 1677312 := by decide +kernel

example : (Binary.ofFloat? 2049).map Binary.halfUnits = some (2048 <<< 24) := by decide +kernel

end Lindenmayer
