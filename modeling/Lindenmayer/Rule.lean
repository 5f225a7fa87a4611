/-
  Rules: what replaces a symbol.

  A rule is written as one token, the symbol, an equals sign and the production:  `F=F[+F]F`.  The
  production may be empty and may hold further equals signs.  Rules that are built from other
  sources than a token may have a key of any length; such a key stands in the table but no symbol
  of a word ever matches it, unless it is a single symbol.

  Key and production are words in nearly every rule.  A table that is built from entries which
  nobody checked may hold values of any kind in their places; `RulePart` is what both have in
  common.
-/
import Lindenmayer.Value.Literal
import Lindenmayer.Value.Sameness

namespace Lindenmayer

/-- What can be the key or the production of a rule. -/
class RulePart (α : Type) where
  /-- A word as a part of a rule. -/
  ofWord : Word → α
  /-- A part of a rule as a value. -/
  toValue : α → Value

instance : RulePart Word where
  ofWord w := w
  toValue w := .text w

instance : RulePart Value where
  ofWord w := .text w
  toValue v := v

/-- A key and what replaces it. -/
structure Rule (α : Type) where
  key : α
  production : α
deriving DecidableEq

namespace Rule

/-- The rule that a token writes down: a symbol, an equals sign and the rest. -/
def ofToken? : Word → Option (Rule Word)
  | symbol :: '=' :: production => some ⟨[symbol], production⟩
  | _ => none

/-- The rule as a token. -/
def toToken {α : Type} [RulePart α] (r : Rule α) : Word :=
  (RulePart.toValue r.key).plain ++ '=' :: (RulePart.toValue r.production).plain

theorem toToken_word (r : Rule Word) : r.toToken = r.key ++ '=' :: r.production := rfl

example : ofToken? "X=X=Y".toList = some ⟨['X'], "X=Y".toList⟩ := by decide

example : ofToken? "XY=F".toList = none := by decide

end Rule

end Lindenmayer
