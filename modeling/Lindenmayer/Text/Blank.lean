/-
  Blank characters, and the two readings of a text that depend on them.

  * `strip`  — the text without its blanks: the word that a loosely spaced axiom stands for.
  * `tokens` — the maximal runs of characters that are not blank, in order: the entries of a
    rule text.

  Blanks are the Unicode white-space characters together with the four information
  separators U+001C to U+001F.  A zero-width space or a byte-order mark is not blank.

  `tokens` is a right fold.  The fold cuts the text at every blank into pieces, some of them
  empty, and the empty ones are dropped afterwards; keeping them until then is what makes each
  step of the fold independent of how many blanks stand together.
-/
import Lindenmayer.Word

namespace Lindenmayer.Text

/-- The characters that separate tokens and are no part of any word. -/
def isBlank (c : Char) : Bool :=
  let n := c.toNat
  (0x09 ≤ n && n ≤ 0x0D) || (0x1C ≤ n && n ≤ 0x20) || n == 0x85 || n == 0xA0 || n == 0x1680 ||
    (0x2000 ≤ n && n ≤ 0x200A) || n == 0x2028 || n == 0x2029 || n == 0x202F || n == 0x205F ||
    n == 0x3000

/-- The text without its blanks. -/
def strip (text : Word) : Word :=
  text.filter (!isBlank ·)

/-! ## Tokens -/

/-- One step of the cut, from the right: a blank opens a new piece, any other character joins
    the piece to its right.  The fold starts with an empty piece, so there always is one. -/
def cut (c : Char) : List Word → List Word
  | [] => []
  | piece :: pieces => if isBlank c then [] :: piece :: pieces else (c :: piece) :: pieces

/-- The pieces between the blanks of a text, in order: one more than there are blanks. -/
def pieces (text : Word) : List Word :=
  text.foldr cut [[]]

/-- The maximal non-empty runs of non-blank characters, in order. -/
def tokens (text : Word) : List Word :=
  (pieces text).filter (!·.isEmpty)

/-! ## What the readings keep -/

/-- Stripping keeps a text that holds no blank. -/
theorem strip_eq_self {text : Word} (h : ∀ c ∈ text, isBlank c = false) : strip text = text :=
  List.filter_eq_self.mpr fun c hc => by simp [h c hc]

example : tokens " X=XY \tY=F ".toList = ["X=XY".toList, "Y=F".toList] := by decide

example : tokens "\u200b\u3000F".toList = ["\u200b".toList, "F".toList] := by decide

end Lindenmayer.Text
