/-
  Blanks and rule tables.

  A rule text cannot write a blank into a rule, since blanks are what its tokens are separated by:
  a table that was read from text is BLANK-FREE (`blankFree_of_parse`).  Rules from other sources
  may hold blanks.  What is drawn from a blank-free table for a symbol is a word without blanks, or
  no word at all.
-/
import Lindenmayer.Proofs.RuleTable.Keys
import Lindenmayer.Rules

namespace Lindenmayer

/-! ## Texts without blanks -/

namespace Text

/-- No character of the text is a blank. -/
def BlankFree (text : Word) : Prop :=
  ∀ c ∈ text, isBlank c = false

theorem blankFree_nil : BlankFree [] :=
  fun _ h => absurd h List.not_mem_nil

/-- Cutting at a character keeps the pieces free of blanks. -/
theorem blankFree_of_mem_cut {c : Char} {pieces : List Word} (h : ∀ p ∈ pieces, BlankFree p) :
    ∀ p ∈ cut c pieces, BlankFree p := by
  cases pieces with
  | nil => exact h
  | cons piece pieces =>
    rw [cut]
    split
    · exact List.forall_mem_cons.mpr ⟨blankFree_nil, h⟩
    · rename_i hc
      obtain ⟨hpiece, hpieces⟩ := List.forall_mem_cons.mp h
      have hlonger : BlankFree (c :: piece) :=
        List.forall_mem_cons.mpr ⟨Bool.eq_false_iff.mpr hc, hpiece⟩
      exact List.forall_mem_cons.mpr ⟨hlonger, hpieces⟩

theorem blankFree_of_mem_pieces (text : Word) : ∀ p ∈ pieces text, BlankFree p := by
  induction text with
  | nil => exact List.forall_mem_singleton.mpr blankFree_nil
  | cons c text ih => exact blankFree_of_mem_cut ih

/-- **Tokens hold no blanks.** -/
theorem blankFree_of_mem_tokens {text token : Word} (h : token ∈ tokens text) : BlankFree token :=
  blankFree_of_mem_pieces text token (List.mem_filter.mp h).1

end Text

/-! ## Rules that were read -/

/-- A function that may fail gets through a list exactly if it succeeds on every member. -/
theorem mapM_eq_ok_iff {α β ε : Type} {f : α → Except ε β} {xs : List α} {ys : List β} :
    xs.mapM f = .ok ys ↔ xs.map f = ys.map .ok := by
  induction xs generalizing ys with
  | nil => cases ys <;> simp [pure, Except.pure]
  | cons x xs ih =>
    rw [List.mapM_cons, List.map_cons]
    cases hx : f x with
    | error cause => cases ys <;> simp [bind, Except.bind]
    | ok y =>
      cases hxs : xs.mapM f with
      | error cause =>
        -- the rest fails, so it is no list of successes, with `y` in front of it or not
        have hnone : ∀ zs : List β, xs.map f ≠ zs.map .ok := fun zs h => by
          rw [ih.mpr h] at hxs
          nomatch hxs
        cases ys <;> simp [bind, Except.bind, hnone]
      | ok zs =>
        rw [ih.mp hxs]
        cases ys <;> simp [bind, Except.bind, pure, Except.pure, List.map_inj_right]

/-- What comes out of a list that was got through comes from one of its members. -/
theorem exists_mem_of_mapM_eq_ok {α β ε : Type} {f : α → Except ε β} {xs : List α} {ys : List β}
    (h : xs.mapM f = .ok ys) {y : β} (hy : y ∈ ys) : ∃ x ∈ xs, f x = .ok y := by
  have hmem : Except.ok y ∈ ys.map (Except.ok : β → Except ε β) := List.mem_map_of_mem hy
  rw [← mapM_eq_ok_iff.mp h] at hmem
  exact List.mem_map.mp hmem

/-- So it does exactly if it succeeds on each of them. -/
theorem exists_mapM_eq_ok_iff {α β ε : Type} {f : α → Except ε β} {xs : List α} :
    (∃ ys, xs.mapM f = .ok ys) ↔ ∀ x ∈ xs, ∃ y, f x = .ok y := by
  simp only [mapM_eq_ok_iff]
  constructor
  · rintro ⟨ys, hys⟩ x hx
    have hmem : f x ∈ ys.map (Except.ok : β → Except ε β) := hys ▸ List.mem_map_of_mem hx
    obtain ⟨y, -, hy⟩ := List.mem_map.mp hmem
    exact ⟨y, hy.symm⟩
  · intro h
    induction xs with
    | nil => exact ⟨[], rfl⟩
    | cons x xs ih =>
      obtain ⟨⟨y, hy⟩, hrest⟩ := List.forall_mem_cons.mp h
      obtain ⟨ys, hys⟩ := ih hrest
      exact ⟨y :: ys, by rw [List.map_cons, List.map_cons, hy, hys]⟩

/-- A function that may fail stops a list at the first member that it fails on, whatever comes behind
    it. -/
theorem mapM_of_first_error {α β ε : Type} {f : α → Except ε β} {before : List α} {x : α} {cause : ε}
    (hbefore : ∀ y ∈ before, ∃ z, f y = .ok z) (hx : f x = .error cause) (after : List α) :
    (before ++ x :: after).mapM f = .error cause := by
  induction before with
  | nil =>
    rw [List.nil_append, List.mapM_cons, hx]
    rfl
  | cons y before ih =>
    obtain ⟨⟨z, hz⟩, hrest⟩ := List.forall_mem_cons.mp hbefore
    rw [List.cons_append, List.mapM_cons, hz, ih hrest]
    rfl

/-- A table that was read is the table of the rules that were. -/
theorem RuleTable.ofRules_map_eq_ok_iff {α : Type} [BEq α] {rules : Except Error (List (Rule α))}
    {table : RuleTable α} : ofRules <$> rules = .ok table ↔ rules = .ok table.rules := by
  cases rules with
  | error cause => exact ⟨fun h => (nomatch h), fun h => (nomatch h)⟩
  | ok rules =>
    constructor
    · intro h
      rw [← Except.ok.inj h, rules_ofRules]
    · intro h
      exact congrArg Except.ok (RuleTable.ext (Except.ok.inj h))

/-- A rule that a token writes down is the token without its equals sign. -/
theorem Rule.ofToken_eq_ok {token : Word} {r : Rule Word} (h : Rule.ofToken token = .ok r) :
    ∃ c, r.key = [c] ∧ token = c :: '=' :: r.production := by
  unfold Rule.ofToken Rule.ofToken? at h
  split at h
  · rename_i hsome
    split at hsome
    · obtain rfl := Option.some.inj hsome
      obtain rfl := Except.ok.inj h
      exact ⟨_, rfl, rfl⟩
    · nomatch hsome
  · nomatch h

/-- Every rule of a table that was read from text is one of its tokens. -/
theorem RuleTable.exists_token_of_parse {text : Word} {table : RuleTable Word}
    (h : parse text = .ok table) {r : Rule Word} (hr : r ∈ table.rules) :
    ∃ token ∈ Text.tokens text, Rule.ofToken token = .ok r := by
  have hrules : (Text.tokens text).mapM Rule.ofToken = .ok table.rules :=
    ofRules_map_eq_ok_iff.mp h
  exact exists_mem_of_mapM_eq_ok hrules hr

/-- The key of a rule that was read is a symbol, and no blank. -/
theorem RuleTable.exists_symbol_of_parse {text : Word} {table : RuleTable Word}
    (h : parse text = .ok table) {r : Rule Word} (hr : r ∈ table.rules) :
    ∃ c, r.key = [c] ∧ Text.isBlank c = false := by
  obtain ⟨token, htoken, hread⟩ := exists_token_of_parse h hr
  obtain ⟨c, hkey, rfl⟩ := Rule.ofToken_eq_ok hread
  exact ⟨c, hkey, Text.blankFree_of_mem_tokens htoken c List.mem_cons_self⟩

theorem RuleTable.symbolKeys_of_parse {text : Word} {table : RuleTable Word}
    (h : parse text = .ok table) : table.SymbolKeys := by
  intro r hr
  obtain ⟨c, hkey, -⟩ := exists_symbol_of_parse h hr
  exact ⟨c, hkey⟩

/-! ## Tables without blanks -/

namespace RuleTable

variable {α : Type} [BEq α] [RulePart α]

/-- No production of the table is a word with a blank. -/
def BlankFree (t : RuleTable α) : Prop :=
  ∀ r ∈ t.rules, ∀ w, RulePart.Is r.production w → Text.BlankFree w

/-- **Reading a rule text gives a table without blanks.** -/
theorem blankFree_of_parse {text : Word} {table : RuleTable Word} (h : parse text = .ok table) :
    table.BlankFree := by
  intro r hr w hw
  obtain ⟨token, htoken, hread⟩ := exists_token_of_parse h hr
  obtain ⟨c, -, heq⟩ := Rule.ofToken_eq_ok hread
  obtain rfl : r.production = w := Value.text.inj hw
  intro d hd
  have hmem : d ∈ token := by
    rw [heq]
    exact List.mem_cons_of_mem c (List.mem_cons_of_mem '=' hd)
  exact Text.blankFree_of_mem_tokens htoken d hmem

/-- What is drawn from a table without blanks has none, if it is a word. -/
theorem BlankFree.pick [LawfulRulePart α] {σ : Type} [Chooser σ] {t : RuleTable α}
    (h : t.BlankFree) (key : α) (g : σ) {w : Word} (hw : RulePart.Is (t.pick key g).1 w) :
    Text.BlankFree w := by
  rcases word_of_pick hw with ⟨r, hr, hword⟩ | rfl
  · exact h r hr w hword
  · exact Text.blankFree_nil

end RuleTable

end Lindenmayer
