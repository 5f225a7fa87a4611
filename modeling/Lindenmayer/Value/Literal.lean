/-
  The literal form of values, as messages show them.

  A text is written between single quotes, or between double quotes when it holds a single quote
  and no double one, so that a quote has to be escaped only in a text with both kinds.  Inside, the
  backslash and the quote in use follow a backslash, line feed, carriage return and tab have their
  letters, and any other character that is not printable is written by its number in lower-case
  hexadecimal, with the shortest of the three widths that holds it.

  Lists stand in brackets, tuples in parentheses and dictionaries in braces, with a comma and a
  space between the members; a tuple of one member keeps a comma of its own.  Floats are the
  shortest decimals that read back, positional from 1e-4 up to below 1e16 and with an exponent of
  at least two digits otherwise, so that a float is never taken for a whole number.
-/
import Lindenmayer.Decimal.Shortest
import Lindenmayer.Text.Printable
import Lindenmayer.Value.Basic

namespace Lindenmayer

/-! ## Quoted texts -/

namespace Text

/-- The last `width` hexadecimal digits of a number, in lower case. -/
def hex : (width : Nat) → Nat → Word
  | 0, _ => []
  | width + 1, n => hex width (n / 16) ++ [Nat.digitChar (n % 16)]

/-- The number of a character after the letter that tells its width: two, four or eight digits. -/
def numbered (c : Char) : Word :=
  let n := c.toNat
  if n < 0x100 then '\\' :: 'x' :: hex 2 n
  else if n < 0x10000 then '\\' :: 'u' :: hex 4 n
  else '\\' :: 'U' :: hex 8 n

/-- One character of a text as it stands between quotes of the given kind. -/
def escape (quote c : Char) : Word :=
  if c = quote ∨ c = '\\' then ['\\', c]
  else if c = '\n' then ['\\', 'n']
  else if c = '\r' then ['\\', 'r']
  else if c = '\t' then ['\\', 't']
  else if isPrintable c then [c]
  else numbered c

/-- The kind of quote that a text is written between. -/
def quoteFor (text : Word) : Char :=
  if text.contains '\'' && !text.contains '"' then '"' else '\''

/-- The quoted form of a text. -/
def quoted (text : Word) : Word :=
  let quote := quoteFor text
  quote :: text.flatMap (escape quote) ++ [quote]

example : quoted "it's".toList = "\"it's\"".toList := by decide +kernel

example : quoted "it's \"F\"".toList = "'it\\'s \"F\"'".toList := by decide +kernel

example : quoted "\u00a0\u200b\n".toList = "'\\xa0\\u200b\\n'".toList := by decide +kernel

end Text

/-! ## Literals -/

/-- How floats are laid out in literals. -/
def floatLayout : Decimal.Layout :=
  { leastPositional := -4, mostPositional := 15, exponentWidth := 2 }

/-- A whole number in decimal. -/
def intLiteral (n : Int) : Word :=
  (if n < 0 then ['-'] else []) ++ Decimal.digitsOf n.natAbs

/-- Items with a comma and a space between them. -/
def commaSeparated (items : List Word) : Word :=
  [',', ' '].intercalate items

/-- The members of a tuple in parentheses. -/
def tupleLiteral : List Word → Word
  | [item] => '(' :: item ++ [',', ')']
  | items => '(' :: commaSeparated items ++ [')']

namespace Value

mutual

/-- The literal form of a value. -/
def literal : Value → Word
  | .null => ['N', 'o', 'n', 'e']
  | .bool true => ['T', 'r', 'u', 'e']
  | .bool false => ['F', 'a', 'l', 's', 'e']
  | .int n => intLiteral n
  | .float x => floatLayout.writeFloat x
  | .text w => Text.quoted w
  | .list items => '[' :: commaSeparated (literals items) ++ [']']
  | .tuple items => tupleLiteral (literals items)
  | .dict entries => '\x7b' :: commaSeparated (entryLiterals entries) ++ ['\x7d']

/-- The literal forms of several values. -/
def literals : List Value → List Word
  | [] => []
  | v :: vs => v.literal :: literals vs

/-- The literal forms of dictionary entries, key and value with a colon between them. -/
def entryLiterals : List (Value × Value) → List Word
  | [] => []
  | (k, v) :: entries => (k.literal ++ ':' :: ' ' :: v.literal) :: entryLiterals entries

end

/-- A value inside a running text: a text as it stands, any other value in its literal form. -/
def plain : Value → Word
  | .text w => w
  | v => v.literal

/-- The literal form as a string. -/
def shown (v : Value) : String :=
  String.ofList v.literal

example : shown (.tuple [.int (-1)]) = "(-1,)" := by decide +kernel

example : shown (.list [.null, .text ['F'], .float 1e16]) = "[None, 'F', 1e+16]" := by
  decide +kernel

end Value

end Lindenmayer
