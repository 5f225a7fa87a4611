/-
  When two values are the same, and dictionaries, which rest on it.

  Numbers are the same when they stand for the same number, whatever their kinds: the truth value
  true, the whole number 1 and the float 1.0 are one key.  A whole number and a float are compared
  exactly, without rounding either, and a NaN is not even the same as itself.  Texts are the same
  symbol by symbol and tuples member by member.

  A key has to be a value that cannot change.  Lists and dictionaries can, and so can a tuple that
  holds one.  A dictionary has each key once: an entry with a key that is there already replaces
  the value and leaves the key as it was and where it was.
-/
import Lindenmayer.Decimal.Binary
import Lindenmayer.Value.Basic

namespace Lindenmayer

namespace Number

/-- A float stands for exactly this whole number. -/
def isExactly (x : Float) (n : Int) : Bool :=
  match Binary.ofFloat? x with
  | none => false
  | some b => (n.natAbs * b.ratio.2 == b.ratio.1) && (n == 0 || (n < 0) == b.negative)

/-- Two numbers are the same number. -/
def same : Number → Number → Bool
  | .int m, .int n => m == n
  | .float x, .float y => x == y
  | .int n, .float x => isExactly x n
  | .float x, .int n => isExactly x n

end Number

namespace Value

mutual

/-- Two values that can be keys are the same; values that cannot be keys are never compared. -/
def same : Value → Value → Bool
  | .null, .null => true
  | .text v, .text w => v == w
  | .tuple items, .tuple others => sameItems items others
  | v, w =>
    match v.countedNumber?, w.countedNumber? with
    | some a, some b => a.same b
    | _, _ => false

/-- The values of two lists are the same one by one. -/
def sameItems : List Value → List Value → Bool
  | [], [] => true
  | v :: vs, w :: ws => v.same w && sameItems vs ws
  | _, _ => false

end

mutual

/-- The value cannot change and so can be a key. -/
def isKey : Value → Bool
  | .list _ | .dict _ => false
  | .tuple items => areKeys items
  | _ => true

/-- Every value of a list can be a key. -/
def areKeys : List Value → Bool
  | [] => true
  | v :: vs => v.isKey && areKeys vs

end

instance : BEq Value := ⟨same⟩

/-- The entries with one more: it replaces the value of a key that is the same, or comes last. -/
def insertEntry : List (Value × Value) → Value × Value → List (Value × Value)
  | [], entry => [entry]
  | (k, v) :: entries, entry =>
    if k == entry.1 then (k, entry.2) :: entries else (k, v) :: insertEntry entries entry

/-- The dictionary of a list of entries, if all their keys can be keys. -/
def dictOf? (entries : List (Value × Value)) : Option Value :=
  if entries.all (·.1.isKey) then some (.dict (entries.foldl insertEntry [])) else none

example : dictOf? [(.int 1, .null), (.text ['F'], .null), (.bool true, .int 2)] =
    some (.dict [(.int 1, .int 2), (.text ['F'], .null)]) := by rfl

example : dictOf? [(.tuple [.list []], .null)] = none := by rfl

end Value

end Lindenmayer
