/-
  Tokens of texts that are put together.

  A blank between two texts keeps their tokens apart, whatever the texts are (`tokens_append_blank`):
  the cut of the first one goes on to its end, and the blank opens the pieces of the second.  So
  tokens that hold no blank and are not empty are read back from the text that has single spaces
  between them (`tokens_intercalate`).
-/
import Lindenmayer.Proofs.RuleTable.Blanks

namespace Lindenmayer.Text

/-- There always is a piece. -/
theorem pieces_ne_nil (text : Word) : pieces text ≠ [] := by
  induction text with
  | nil => exact List.cons_ne_nil [] []
  | cons c text ih =>
    show cut c (pieces text) ≠ []
    obtain ⟨piece, rest, hpieces⟩ := List.exists_cons_of_ne_nil ih
    rw [hpieces, cut]
    split
    · exact List.cons_ne_nil _ _
    · exact List.cons_ne_nil _ _

/-- Cutting at a character changes the first piece only. -/
theorem cut_append (c : Char) {first : List Word} (h : first ≠ []) (second : List Word) :
    cut c (first ++ second) = cut c first ++ second := by
  obtain ⟨piece, rest, rfl⟩ := List.exists_cons_of_ne_nil h
  rw [List.cons_append, cut, cut]
  split
  · rfl
  · rfl

/-- The pieces of two texts with a blank between them.  Induction over the first text. -/
theorem pieces_append_blank {b : Char} (hb : isBlank b = true) (u v : Word) :
    pieces (u ++ b :: v) = pieces u ++ pieces v := by
  induction u with
  | nil =>
    show cut b (pieces v) = [] :: pieces v
    obtain ⟨piece, rest, hpieces⟩ := List.exists_cons_of_ne_nil (pieces_ne_nil v)
    rw [hpieces, cut, if_pos hb]
  | cons c u ih =>
    show cut c (pieces (u ++ b :: v)) = cut c (pieces u) ++ pieces v
    rw [ih, cut_append c (pieces_ne_nil u)]

/-- **A blank keeps tokens apart.** -/
theorem tokens_append_blank {b : Char} (hb : isBlank b = true) (u v : Word) :
    tokens (u ++ b :: v) = tokens u ++ tokens v := by
  rw [tokens, pieces_append_blank hb, List.filter_append]
  rfl

/-- Blanks at the beginning make no tokens. -/
theorem tokens_blanks_append {w : Word} (h : ∀ c ∈ w, isBlank c = true) (v : Word) :
    tokens (w ++ v) = tokens v := by
  induction w with
  | nil => rfl
  | cons c w ih =>
    obtain ⟨hc, hw⟩ := List.forall_mem_cons.mp h
    calc tokens (c :: w ++ v) = tokens [] ++ tokens (w ++ v) := tokens_append_blank hc [] (w ++ v)
      _ = tokens v := ih hw

/-- So do several blanks, whatever blanks they are. -/
theorem tokens_append_blanks {w : Word} (hne : w ≠ []) (h : ∀ c ∈ w, isBlank c = true) (u v : Word) :
    tokens (u ++ w ++ v) = tokens u ++ tokens v := by
  obtain ⟨c, w, rfl⟩ := List.exists_cons_of_ne_nil hne
  obtain ⟨hc, hw⟩ := List.forall_mem_cons.mp h
  rw [List.append_assoc, List.cons_append, tokens_append_blank hc, tokens_blanks_append hw]

/-- A text without blanks is one piece. -/
theorem pieces_of_blankFree {text : Word} (h : BlankFree text) : pieces text = [text] := by
  induction text with
  | nil => rfl
  | cons c text ih =>
    obtain ⟨hc, hrest⟩ := List.forall_mem_cons.mp h
    show cut c (pieces text) = [c :: text]
    rw [ih hrest, cut, if_neg (Bool.eq_false_iff.mp hc)]

/-- A text without blanks is one token, unless it is empty. -/
theorem tokens_of_blankFree {text : Word} (h : BlankFree text) (hne : text ≠ []) :
    tokens text = [text] := by
  rw [tokens, pieces_of_blankFree h]
  exact List.filter_cons_of_pos (by simpa using hne)

/-- **Tokens are read back** from the text that they make with single spaces between them. -/
theorem tokens_intercalate {ts : List Word} (h : ∀ t ∈ ts, t ≠ [] ∧ BlankFree t) :
    tokens ([' '].intercalate ts) = ts := by
  induction ts with
  | nil => rfl
  | cons t ts ih =>
    obtain ⟨⟨hne, hblank⟩, hrest⟩ := List.forall_mem_cons.mp h
    cases ts with
    | nil =>
      rw [List.intercalate_singleton]
      exact tokens_of_blankFree hblank hne
    | cons t' ts =>
      rw [List.intercalate_cons_cons, List.append_assoc, List.singleton_append,
        tokens_append_blank rfl, tokens_of_blankFree hblank hne, ih hrest]
      rfl

end Lindenmayer.Text
