/-
  Decoration: symbols that do nothing.

  A symbol is DECORATION if it has no rule and is no command of the turtle.  It may stand anywhere,
  in the initiator and in productions, and all that it does is to take up room: where symbols are
  looked up it is copied, where they are drawn for it vanishes without costing a choice, and the
  turtle ignores it.  So it can be left out beforehand.

  To leave it out is a map of words, `bare`, and of tables.  A pass over a bare word with a bare
  table writes what the pass over the whole word writes, bare, from the same state to the same state
  (`Replacement.Shadows.expand_bare`), and that goes on from stage to stage.  Only the bound could tell
  the two apart, and it does so in one direction: the bare words are shorter, and if one of them has
  a symbol left the whole word has one too, so that a bound that lets the whole run through lets the
  bare one through.
-/
import Lindenmayer.Picture
import Lindenmayer.Proofs.Derivation.Stages
import Lindenmayer.Proofs.RuleTable.Blanks
import Lindenmayer.Proofs.RuleTable.Keys
import Lindenmayer.Proofs.Turtle.Scopes

namespace Lindenmayer

variable {σ α : Type} [RulePart α]

/-! ## Bare words -/

/-- The word without its decoration. -/
def bare (decoration : Symbol → Bool) (w : Word) : Word :=
  w.filter (!decoration ·)

section Words

variable {decoration : Symbol → Bool}

theorem bare_append (u v : Word) :
    bare decoration (u ++ v) = bare decoration u ++ bare decoration v :=
  List.filter_append u v

theorem bare_cons_of_decoration {c : Symbol} (h : decoration c = true) (w : Word) :
    bare decoration (c :: w) = bare decoration w :=
  List.filter_cons_of_neg (by rw [h]; exact Bool.false_ne_true)

theorem bare_cons_of_plain {c : Symbol} (h : decoration c = false) (w : Word) :
    bare decoration (c :: w) = c :: bare decoration w :=
  List.filter_cons_of_pos (by rw [h]; rfl)

theorem length_bare_le (decoration : Symbol → Bool) (w : Word) :
    (bare decoration w).length ≤ w.length :=
  List.length_filter_le _ w

/-- Blanks and decoration can be left out in either order. -/
theorem strip_bare (w : Word) : Text.strip (bare decoration w) = bare decoration (Text.strip w) :=
  List.filter_filter.trans ((List.filter_congr fun _ _ => Bool.and_comm _ _).trans
    List.filter_filter.symm)

end Words

/-! ## Bare passes and runs -/

/-- `Shadows decoration replace replace'` — decoration is replaced by decoration, which costs
    nothing, and what any other symbol is replaced by is the same but for decoration, at the same
    cost. -/
structure Replacement.Shadows (decoration : Symbol → Bool) (replace : Replacement σ α)
    (replace' : Replacement σ Word) : Prop where
  decorated : ∀ c state, decoration c = true →
    bare decoration (RulePart.toWord (replace c state).1) = [] ∧ (replace c state).2 = state
  plain : ∀ c state, decoration c = false →
    replace' c state =
      (bare decoration (RulePart.toWord (replace c state).1), (replace c state).2)

namespace Replacement.Shadows

variable {decoration : Symbol → Bool} {replace : Replacement σ α} {replace' : Replacement σ Word}

/-- **One pass**: over the bare word, it writes the bare word of what the pass over the whole word
    writes, and ends in the same state. -/
theorem expand_bare (h : Shadows decoration replace replace') (w : Word) (state : σ) :
    expand replace' (bare decoration w) state =
      (bare decoration (expand replace w state).1, (expand replace w state).2) := by
  induction w generalizing state with
  | nil => rfl
  | cons c w ih =>
    show _ = (bare decoration
      (RulePart.toWord (replace c state).1 ++ (expand replace w (replace c state).2).1),
      (expand replace w (replace c state).2).2)
    rw [bare_append]
    cases hc : decoration c with
    | true =>
      obtain ⟨hnothing, hstate⟩ := h.decorated c state hc
      rw [bare_cons_of_decoration hc, hnothing, hstate]
      exact ih state
    | false =>
      rw [bare_cons_of_plain hc]
      show (RulePart.toWord (replace' c state).1 ++
        (expand replace' (bare decoration w) (replace' c state).2).1,
        (expand replace' (bare decoration w) (replace' c state).2).2) = _
      rw [h.plain c state hc, ih]
      rfl

/-- The stages of the bare run are the bare stages. -/
theorem stage_bare (h : Shadows decoration replace replace') (w : Word) (state : σ) (i : Nat) :
    stage replace' (bare decoration w) state i =
      (bare decoration (stage replace w state i).1, (stage replace w state i).2) := by
  induction i with
  | zero => rfl
  | succ i ih =>
    show expand replace' _ _ = _
    rw [ih]
    exact h.expand_bare _ _

/-- A pass that gets through gets through with the bare word. -/
theorem fits_bare (h : Shadows decoration replace replace') {bound : Option Int} {w : Word}
    {state : σ} {i : Nat} (hfits : Fits replace bound w state i) :
    Fits replace' bound (bare decoration w) state i := by
  intro m hm
  subst hm
  refine (fits_iff replace' m _ state i).mpr ?_ m rfl
  rw [h.stage_bare, h.stage_bare]
  -- a bare word with a symbol left comes from a word with one, which the bound was compared for
  intro hne
  have hwhole : (stage replace w state i).1 ≠ [] := by
    intro hnil
    apply hne
    show bare decoration (stage replace w state i).1 = []
    rw [hnil]
    rfl
  have hle := (fits_iff replace m w state i).mp hfits hwhole
  have hshorter := length_bare_le decoration (stage replace w state (i + 1)).1
  show ((bare decoration (stage replace w state (i + 1)).1).length : Int) ≤ m
  omega

/-- **One run**: if the whole word gets through under a bound, the bare word gets through under it,
    to the bare result and the same state. -/
theorem run_bare (h : Shadows decoration replace replace') (htext : replace.Textual)
    (htext' : replace'.Textual) {bound : Option Int} {n : Nat} {w v : Word} {state : σ}
    (hv : (run replace bound n w state).outcome = .ok v) :
    (run replace' bound n (bare decoration w) state).outcome = .ok (bare decoration v) ∧
      (run replace' bound n (bare decoration w) state).state = (run replace bound n w state).state := by
  obtain ⟨hfits, rfl, hstate⟩ := stage_of_run_ok htext hv
  rw [run_of_fits htext' fun i hi => h.fits_bare (hfits i hi), hstate, h.stage_bare]
  exact ⟨rfl, rfl⟩

end Replacement.Shadows

/-! ## Bare tables -/

namespace RuleTable

variable [BEq α]

/-- The table with the decoration left out of its productions. -/
def undecorated (decoration : Symbol → Bool) (t : RuleTable α) : RuleTable Word :=
  ofRules (t.rules.map fun r =>
    ⟨RulePart.toWord r.key, bare decoration (RulePart.toWord r.production)⟩)

/-- `t.Inert decoration` — the decoration has no rules in the table and no meaning to the turtle. -/
structure Inert (decoration : Symbol → Bool) (t : RuleTable α) : Prop where
  unruled : ∀ c, decoration c = true → t.contains (RulePart.ofWord [c]) = false
  ignored : ∀ c, decoration c = true → c ∉ ['F', 'f', '+', '-', '[', ']']

variable [LawfulRulePart α] {decoration : Symbol → Bool} {t : RuleTable α}

/-- The bare table is what is read from the pairs of its rules. -/
theorem ofPairs_undecorated (hkeys : t.SymbolKeys) :
    ofPairs (.list (t.rules.map fun r => .tuple [.text (RulePart.toWord r.key),
        .text (bare decoration (RulePart.toWord r.production))])) =
      .ok (t.undecorated decoration) := by
  have hread : List.mapM Rule.ofPair (t.rules.map fun r =>
      .tuple [.text (RulePart.toWord r.key), .text (bare decoration (RulePart.toWord r.production))]) =
        .ok (t.undecorated decoration).rules := by
    rw [mapM_eq_ok_iff, undecorated, rules_ofRules, List.map_map, List.map_map]
    apply List.map_congr_left
    intro r hr
    obtain ⟨c, hc⟩ := hkeys r hr
    show Rule.ofTexts (RulePart.toWord r.key) _ = .ok ⟨RulePart.toWord r.key, _⟩
    rw [hc, RulePart.toWord_ofWord]
    rfl
  show ofRules <$> List.mapM Rule.ofPair _ = _
  rw [hread]
  rfl

variable [SharpWords α]

/-- The productions of a symbol in the bare table are its productions, bare. -/
theorem productions_undecorated (hkeys : t.SymbolKeys) (c : Symbol) :
    (t.undecorated decoration).productions [c] =
      (t.productions (RulePart.ofWord [c])).map fun part => bare decoration (RulePart.toWord part) := by
  have hsharp : IsSharp (RulePart.ofWord [c] : α) := SharpWords.isSharp_ofWord [c]
  -- a rule of the bare table is for the symbol if the rule that it comes from is
  have hsame : ∀ r ∈ t.rules,
      (RulePart.toWord r.key == [c]) = (r.key == RulePart.ofWord [c]) := by
    intro r hr
    obtain ⟨d, hd⟩ := hkeys r hr
    rw [hd, RulePart.toWord_ofWord, Bool.eq_iff_iff]
    constructor
    · intro h
      rw [eq_of_beq h]
      exact hsharp.refl
    · intro h
      rw [RulePart.ofWord_injective (hsharp.eq_left h)]
      exact beq_self_eq_true [c]
  exact productions_of_map (rules_ofRules _) hsharp (isSharp_of_lawful [c]) hsame

/-- A symbol that is no decoration is looked up as before, bare. -/
theorem lookup_undecorated (hkeys : t.SymbolKeys) {c : Symbol} (hc : decoration c = false) :
    (t.undecorated decoration).lookup [c] =
      bare decoration (RulePart.toWord (t.lookup (RulePart.ofWord [c]))) := by
  have hsymbol : bare decoration (RulePart.toWord (RulePart.ofWord [c] : α)) = [c] := by
    rw [RulePart.toWord_ofWord, bare_cons_of_plain hc]
    rfl
  exact lookup_of_map (g := fun part => bare decoration (RulePart.toWord part)) hsymbol
    (productions_undecorated hkeys c)

/-- What is drawn for a symbol is drawn as before, bare, by the same choice. -/
theorem pick_undecorated [Chooser σ] (hkeys : t.SymbolKeys) (c : Symbol) (g : σ) :
    (t.undecorated decoration).pick [c] g =
      (bare decoration (RulePart.toWord (t.pick (RulePart.ofWord [c]) g).1),
        (t.pick (RulePart.ofWord [c]) g).2) := by
  have hnone : bare decoration (RulePart.toWord (RulePart.ofWord [] : α)) = [] := by
    rw [RulePart.toWord_ofWord]
    rfl
  exact pick_of_map hnone (productions_undecorated hkeys c) g

namespace Inert

omit [LawfulRulePart α] in
/-- Decoration has no productions. -/
theorem productions_eq_nil (h : t.Inert decoration) {c : Symbol} (hc : decoration c = true) :
    t.productions (RulePart.ofWord [c]) = [] :=
  (t.productions_eq_nil_iff (SharpWords.isSharp_ofWord [c])).mpr (h.unruled c hc)

/-- Looking up in the bare table leaves out the decoration. -/
theorem looking (h : t.Inert decoration) (hkeys : t.SymbolKeys) :
    Replacement.Shadows decoration (t.looking : Replacement σ α)
      (t.undecorated decoration).looking where
  decorated c state hc := by
    refine ⟨?_, rfl⟩
    show bare decoration (RulePart.toWord (t.lookup (RulePart.ofWord [c]))) = []
    rw [lookup_eq, h.productions_eq_nil hc]
    show bare decoration (RulePart.toWord (RulePart.ofWord [c] : α)) = []
    rw [RulePart.toWord_ofWord, bare_cons_of_decoration hc]
    rfl
  plain c state hc := congrArg (·, state) (lookup_undecorated hkeys hc)

/-- Drawing for symbols in the bare table leaves out the decoration. -/
theorem picking [Chooser σ] (h : t.Inert decoration) (hkeys : t.SymbolKeys) :
    Replacement.Shadows decoration (t.picking : Replacement σ α)
      (t.undecorated decoration).picking where
  decorated c state hc := by
    show bare decoration (RulePart.toWord (t.pick (RulePart.ofWord [c]) state).1) = [] ∧
      (t.pick (RulePart.ofWord [c]) state).2 = state
    rw [pick_of_productions_nil (h.productions_eq_nil hc)]
    refine ⟨?_, rfl⟩
    show bare decoration (RulePart.toWord (RulePart.ofWord [] : α)) = []
    rw [RulePart.toWord_ofWord]
    rfl
  plain c state _ := pick_undecorated hkeys c state

end Inert

/-- **Blanks are decoration** for a table that was read from text, and it is bare of them. -/
theorem inert_isBlank_of_parse {text : Word} {table : RuleTable Word} (h : parse text = .ok table) :
    table.Inert Text.isBlank ∧ table.SymbolKeys ∧ table.undecorated Text.isBlank = table := by
  have hrule : ∀ r ∈ table.rules, ∃ c, r.key = [c] ∧ Text.isBlank c = false :=
    fun r hr => exists_symbol_of_parse h hr
  refine ⟨⟨?_, ?_⟩, ?_, ?_⟩
  · intro c hc
    rw [contains_eq_any _ (isSharp_of_lawful _), List.any_eq_false]
    intro r hr hkey
    obtain ⟨d, hd, hblank⟩ := hrule r hr
    obtain rfl : d = c := List.singleton_inj.mp (hd.symm.trans (eq_of_beq hkey))
    exact nomatch hblank.symm.trans hc
  · intro c hc hmem
    have hplain : ['F', 'f', '+', '-', '[', ']'].any Text.isBlank = false := rfl
    exact List.any_eq_false.mp hplain c hmem hc
  · exact symbolKeys_of_parse h
  · apply RuleTable.ext
    rw [undecorated, rules_ofRules]
    refine (List.map_congr_left ?_).trans (List.map_id table.rules)
    intro r hr
    have hproduction : bare Text.isBlank r.production = r.production :=
      Text.strip_eq_self (blankFree_of_parse h r hr r.production rfl)
    exact congrArg (Rule.mk r.key) hproduction

end RuleTable

/-! ## Bare derivations -/

section Derivations

variable [BEq α] [LawfulRulePart α] [SharpWords α] {decoration : Symbol → Bool} {t : RuleTable α}

/-- A derivation at random, whatever makes the choices, goes through bare with the same choices. -/
theorem stochastic_bare [Chooser σ] (h : t.Inert decoration) (htext : t.Textual)
    (hkeys : t.SymbolKeys) {initiator w : Word} {n : Nat} {bound : Option Int} {state : σ}
    (hw : (stochastic t bound n initiator state).outcome = .ok w) :
    (stochastic (t.undecorated decoration) bound n (bare decoration initiator) state).outcome =
        .ok (bare decoration w) ∧
      (stochastic (t.undecorated decoration) bound n (bare decoration initiator) state).state =
        (stochastic t bound n initiator state).state := by
  unfold stochastic
  rw [strip_bare]
  exact (h.picking hkeys).run_bare htext.picking (RuleTable.textual_of_words _).picking hw

/-- **A derivation goes through bare**, by any strategy and under the same bound, and leaves the
    source of chance as it does with the decoration. -/
theorem deriveFrom_bare (h : t.Inert decoration) (htext : t.Textual) (hkeys : t.SymbolKeys)
    {strategy : Strategy} {initiator w : Word} {source : Source} {n : Nat} {bound : Option Int}
    (hw : (deriveFrom strategy initiator t (.int n) source bound).outcome = .ok w) :
    (deriveFrom strategy (bare decoration initiator) (t.undecorated decoration) (.int n) source
        bound).outcome = .ok (bare decoration w) ∧
      (deriveFrom strategy (bare decoration initiator) (t.undecorated decoration) (.int n) source
        bound).state = (deriveFrom strategy initiator t (.int n) source bound).state := by
  have htext' : (t.undecorated decoration).Textual := RuleTable.textual_of_words _
  by_cases hstrategy : strategy = .stochastic
  · subst hstrategy
    obtain ⟨g, hg⟩ := enter_of_deriveFrom_ok hw
    rw [deriveFrom_stochastic t initiator hg] at hw
    rw [deriveFrom_stochastic t initiator hg, deriveFrom_stochastic _ _ hg]
    have hrun : (stochastic t bound n initiator g).outcome = .ok w := hw
    obtain ⟨houtcome, hstate⟩ := stochastic_bare h htext hkeys hrun
    exact ⟨houtcome, congrArg source.leave hstate⟩
  · rw [deriveFrom_looking hstrategy] at hw ⊢
    rw [deriveFrom_looking hstrategy]
    exact (h.looking hkeys).run_bare htext.looking htext'.looking hw

end Derivations

/-! ## Bare drawings -/

/-- **The turtle reads the bare word** as it reads the whole one.  Induction over the word. -/
theorem Turtle.run_bare {decoration : Symbol → Bool}
    (h : ∀ c, decoration c = true → c ∉ ['F', 'f', '+', '-', '[', ']']) (m : Motion) (t : Turtle)
    (w : Word) : t.run m (bare decoration w) = t.run m w := by
  induction w generalizing t with
  | nil => rfl
  | cons c w ih =>
    cases hc : decoration c with
    | true =>
      have hignore : Command.ofSymbol c = .ignore := by
        have hnone := h c hc
        simp only [List.mem_cons, List.not_mem_nil, or_false, not_or] at hnone
        simp only [Command.ofSymbol, hnone, if_false]
      rw [bare_cons_of_decoration hc, run_cons, hignore]
      exact ih t
    | false =>
      rw [bare_cons_of_plain hc, run_cons, run_cons]
      exact congrArg (t.obey m (.ofSymbol c) >>= ·) (funext ih)

/-- A bare word is drawn as the whole one, or fails as it does, for all parameters and any start. -/
theorem draw_bare {decoration : Symbol → Bool}
    (h : ∀ c, decoration c = true → c ∉ ['F', 'f', '+', '-', '[', ']']) (w : Word)
    (angle step : Value) (start : Start) :
    draw (bare decoration w) angle step start = draw w angle step start := by
  unfold draw
  refine bind_congr fun m => bind_congr fun p => ?_
  rw [Turtle.run_bare h]

/-- With a number as angle, a word and the bare word are refused together, or drawn alike. -/
theorem draw_bare_cases {decoration : Symbol → Bool}
    (h : ∀ c, decoration c = true → c ∉ ['F', 'f', '+', '-', '[', ']']) {angle step : Value}
    {m : Motion} (hm : Motion.ofValues angle step = .ok m) (hangle : angle.IsNumber) {start : Start}
    (hstart : start.OfFloats) (w : Word) :
    draw w angle step start = .error .noOpenScope ∧
        draw (bare decoration w) angle step start = .error .noOpenScope ∨
      ∃ t, draw w angle step start = .ok t ∧ draw (bare decoration w) angle step start = .ok t := by
  rw [draw_bare h]
  rcases draw_cases hm hangle hstart w with ⟨-, -, hrefused⟩ | ⟨t, -, hok⟩
  · exact Or.inl ⟨hrefused, hrefused⟩
  · exact Or.inr ⟨t, hok, hok⟩

/-! ## Decoration changes no drawing -/

/-- **Decoration changes no drawing.**  Let some symbols have no rules in a textual table whose keys
    are single symbols, and no meaning to the turtle.  What is read from the pairs of the bare rules
    is the bare table.  Wherever a derivation goes through under a bound, it goes through from the
    bare initiator by the bare table under that bound, to the bare word, and it draws the same
    choices from its source, or from whatever else makes them.  The turtle reads a bare word as it
    reads the whole one, so that with a number as angle both are drawn alike, or both refused for
    their brackets.  Blanks are such symbols for every table that was read from text, and there is
    nothing to leave out of that. -/
theorem decoration_changes_no_drawing [BEq α] [LawfulRulePart α] [SharpWords α] :
    (∀ (table : RuleTable α) (decoration : Symbol → Bool), table.Textual → table.SymbolKeys →
      table.Inert decoration →
      RuleTable.ofPairs (.list (table.rules.map fun r => .tuple [.text (RulePart.toWord r.key),
          .text (bare decoration (RulePart.toWord r.production))])) =
        .ok (table.undecorated decoration) ∧
      ∀ (initiator w : Word) (n : Nat) (bound : Option Int),
        (∀ strategy source,
          (deriveFrom strategy initiator table (.int n) source bound).outcome = .ok w →
          (deriveFrom strategy (bare decoration initiator) (table.undecorated decoration) (.int n)
              source bound).outcome = .ok (bare decoration w) ∧
            (deriveFrom strategy (bare decoration initiator) (table.undecorated decoration) (.int n)
              source bound).state = (deriveFrom strategy initiator table (.int n) source bound).state) ∧
        (∀ (τ : Type) [Chooser τ] (state : τ),
          (stochastic table bound n initiator state).outcome = .ok w →
          (stochastic (table.undecorated decoration) bound n (bare decoration initiator)
              state).outcome = .ok (bare decoration w) ∧
            (stochastic (table.undecorated decoration) bound n (bare decoration initiator)
              state).state = (stochastic table bound n initiator state).state) ∧
        ∀ angle step start, (∃ m, Motion.ofValues angle step = .ok m) → angle.IsNumber →
          start.OfFloats →
          draw w angle step start = .error .noOpenScope ∧
              draw (bare decoration w) angle step start = .error .noOpenScope ∨
            ∃ t, draw w angle step start = .ok t ∧
              draw (bare decoration w) angle step start = .ok t) ∧
    ∀ text (table : RuleTable Word), RuleTable.parse text = .ok table →
      table.Inert Text.isBlank ∧ table.SymbolKeys ∧ table.undecorated Text.isBlank = table := by
  refine ⟨?_, fun text table h => RuleTable.inert_isBlank_of_parse h⟩
  intro table decoration htext hkeys h
  refine ⟨RuleTable.ofPairs_undecorated hkeys, fun initiator w n bound => ⟨?_, ?_, ?_⟩⟩
  · exact fun strategy source hw => deriveFrom_bare h htext hkeys hw
  · exact fun τ _ state hw => stochastic_bare h htext hkeys hw
  · exact fun angle step start ⟨m, hm⟩ hangle hstart => draw_bare_cases h.ignored hm hangle hstart w

/-- Two rules of a symbol, each with decoration in it, and a bound that the whole run just reaches:
    the bare run writes the bare word, and leaves the script as the whole run does, asked for five
    choices. -/
theorem decoration_changes_no_drawing_scripted :
    ∃ table : RuleTable Word, RuleTable.parse "F=XF+F F=FX".toList = .ok table ∧ table.Textual ∧
      table.SymbolKeys ∧ table.Inert (· == 'X') ∧
      (deriveFrom .stochastic "FXF".toList table (.int 2) (.generator (.script ⟨#[0, 1], #[]⟩))
        (some 10)).outcome = .ok "XF+FFXXF+F".toList ∧
      (deriveFrom .stochastic (bare (· == 'X') "FXF".toList) (table.undecorated (· == 'X')) (.int 2)
        (.generator (.script ⟨#[0, 1], #[]⟩)) (some 10)).outcome =
          .ok (bare (· == 'X') "XF+FFXXF+F".toList) ∧
      (deriveFrom .stochastic (bare (· == 'X') "FXF".toList) (table.undecorated (· == 'X')) (.int 2)
        (.generator (.script ⟨#[0, 1], #[]⟩)) (some 10)).state =
          .generator (.script ⟨#[0, 1], #[2, 2, 2, 2, 2]⟩) ∧
      ∃ t, draw "XF+FFXXF+F".toList (.int 90) (.int 10) (.value .null) = .ok t ∧
        draw (bare (· == 'X') "XF+FFXXF+F".toList) (.int 90) (.int 10) (.value .null) = .ok t := by
  have hkeys : (RuleTable.ofRules [⟨['F'], "XF+F".toList⟩, ⟨['F'], "FX".toList⟩]).SymbolKeys := by
    intro r hr
    rcases List.mem_cons.mp hr with rfl | hr
    · exact ⟨'F', rfl⟩
    · obtain rfl := List.mem_singleton.mp hr
      exact ⟨'F', rfl⟩
  have hinert : (RuleTable.ofRules [⟨['F'], "XF+F".toList⟩, ⟨['F'], "FX".toList⟩]).Inert
      (· == 'X') := by
    refine ⟨?_, ?_⟩
    · intro c hc
      obtain rfl := eq_of_beq hc
      rfl
    · intro c hc
      obtain rfl := eq_of_beq hc
      decide
  obtain ⟨-, h⟩ := (decoration_changes_no_drawing (α := Word)).1 _ _ (RuleTable.textual_of_words _)
    hkeys hinert
  obtain ⟨hderive, -, hdraw⟩ := h "FXF".toList "XF+FFXXF+F".toList 2 (some 10)
  obtain ⟨hbare, hstate⟩ := hderive .stochastic (.generator (.script ⟨#[0, 1], #[]⟩)) rfl
  refine ⟨_, rfl, RuleTable.textual_of_words _, hkeys, hinert, rfl, hbare, hstate.trans rfl, ?_⟩
  rcases hdraw (.int 90) (.int 10) (.value .null) ⟨_, rfl⟩ (.int 90) .absent with
    ⟨hrefused, -⟩ | hdrawn
  · exact absurd .noOpenScope (draw_of_accepted ⟨0, rfl⟩ _ _ _ _ hrefused)
  · exact hdrawn

end Lindenmayer
