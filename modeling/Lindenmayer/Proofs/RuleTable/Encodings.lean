/-
  The two ways to write a table down.

  A table can be given as pairs or as text, and the text that a table shows of itself is one that
  can be read.  Reading it gives the table back unless a rule holds a blank (`parse_toText_iff`): a
  token begins with the one symbol of its key and an equals sign, and is cut nowhere, so that further
  equals signs, empty productions and keys that are equals signs do no harm.  With a blank in a rule
  the text may still be a rule text, but it is one of another table, since no rule that was read
  holds a blank.

  The contextual strategy reads pairs and the deterministic one text.  After that they do the same.
-/
import Lindenmayer.Proofs.Derivation.Stages
import Lindenmayer.Proofs.Text.Tokens

namespace Lindenmayer

/-! ## Rules from pairs -/

namespace Rule

/-- Which rule a pair is read as: one with its two texts, if the first of them is a symbol. -/
theorem ofPair_eq_ok_iff {member : Value} {r : Rule Word} :
    ofPair member = .ok r ↔
      member.pair? = some (.text r.key, .text r.production) ∧ ∃ c, r.key = [c] := by
  unfold ofPair
  split
  · rename_i hnone
    rw [hnone]
    exact ⟨fun h => (nomatch h), fun h => (nomatch h.1)⟩
  · rename_i key production hpair
    rw [hpair, ofTexts, ← List.length_eq_one_iff]
    constructor
    · intro h
      split at h
      · rename_i hlength
        obtain rfl := Except.ok.inj h
        exact ⟨rfl, hlength⟩
      · nomatch h
    · rintro ⟨hparts, hlength⟩
      obtain ⟨hkey, hproduction⟩ := Prod.mk.inj (Option.some.inj hparts)
      rw [Value.text.inj hkey, Value.text.inj hproduction, if_pos hlength]
  · rename_i pair hnot hpair
    rw [hpair]
    refine ⟨fun h => (nomatch h), ?_⟩
    rintro ⟨hparts, -⟩
    exact absurd (Option.some.inj hparts) (hnot _ _)

/-- A rule whose key is a symbol is read back from its token. -/
theorem ofToken_toToken {r : Rule Word} {c : Symbol} (h : r.key = [c]) :
    ofToken r.toToken = .ok r := by
  obtain ⟨key, production⟩ := r
  obtain rfl : key = [c] := h
  rfl

/-- The token of a rule holds a blank exactly if its key or its production does. -/
theorem blankFree_toToken_iff {r : Rule Word} :
    Text.BlankFree r.toToken ↔ Text.BlankFree r.key ∧ Text.BlankFree r.production := by
  have hsign : Text.isBlank '=' = false := rfl
  simp only [toToken_word, Text.BlankFree, List.forall_mem_append, List.forall_mem_cons, hsign,
    true_and]

end Rule

namespace RuleTable

/-- Which table pairs are read as: that of the rules that their members are read as, if the pairs are
    no text. -/
theorem ofPairs_eq_ok_iff {pairs : Value} {table : RuleTable Word} :
    ofPairs pairs = .ok table ↔ (∀ w, pairs ≠ .text w) ∧
      ∃ members, pairs.members? = some members ∧
        members.map Rule.ofPair = table.rules.map .ok := by
  unfold ofPairs
  split
  · exact ⟨fun h => (nomatch h), fun h => absurd rfl (h.1 _)⟩
  · rename_i hnot
    have hnotText : ∀ w, pairs ≠ .text w := fun w h => hnot w h
    split
    · rename_i members hmembers
      rw [ofRules_map_eq_ok_iff, mapM_eq_ok_iff]
      constructor
      · intro h
        exact ⟨hnotText, members, hmembers, h⟩
      · rintro ⟨-, members', hmembers', h⟩
        rw [Option.some.inj (hmembers.symm.trans hmembers')]
        exact h
    · rename_i hnone
      refine ⟨fun h => (nomatch h), ?_⟩
      rintro ⟨-, members, hmembers, -⟩
      exact nomatch hnone.symm.trans hmembers

/-- A table that was read from pairs has single symbols as keys. -/
theorem symbolKeys_of_ofPairs {pairs : Value} {table : RuleTable Word}
    (h : ofPairs pairs = .ok table) : table.SymbolKeys := by
  obtain ⟨-, members, -, hrules⟩ := ofPairs_eq_ok_iff.mp h
  intro r hr
  obtain ⟨member, -, hmember⟩ := exists_mem_of_mapM_eq_ok (mapM_eq_ok_iff.mpr hrules) hr
  exact (Rule.ofPair_eq_ok_iff.mp hmember).2

/-! ## Text that is read back -/

/-- No rule of the table holds a blank. -/
def Unspaced (t : RuleTable Word) : Prop :=
  ∀ r ∈ t.rules, Text.BlankFree r.key ∧ Text.BlankFree r.production

/-- No rule that was read from text holds a blank. -/
theorem unspaced_of_parse {text : Word} {table : RuleTable Word} (h : parse text = .ok table) :
    table.Unspaced := by
  intro r hr
  obtain ⟨c, hkey, hc⟩ := exists_symbol_of_parse h hr
  refine ⟨?_, blankFree_of_parse h r hr r.production rfl⟩
  rw [hkey]
  exact List.forall_mem_singleton.mpr hc

/-- **Which tables are read back from the text that they show**: those that hold no blank, if their
    keys are symbols. -/
theorem parse_toText_iff {t : RuleTable Word} (hkeys : t.SymbolKeys) :
    parse t.toText = .ok t ↔ t.Unspaced := by
  constructor
  · exact unspaced_of_parse
  · intro h
    have htokens : Text.tokens t.toText = t.rules.map Rule.toToken := by
      apply Text.tokens_intercalate
      intro token htoken
      obtain ⟨r, hr, rfl⟩ := List.mem_map.mp htoken
      obtain ⟨c, hc⟩ := hkeys r hr
      refine ⟨?_, Rule.blankFree_toToken_iff.mpr (h r hr)⟩
      rw [Rule.toToken_word]
      exact List.append_ne_nil_of_right_ne_nil _ (List.cons_ne_nil '=' r.production)
    rw [parse, ofRules_map_eq_ok_iff, mapM_eq_ok_iff, htokens, List.map_map]
    apply List.map_congr_left
    intro r hr
    obtain ⟨c, hc⟩ := hkeys r hr
    exact Rule.ofToken_toToken hc

end RuleTable

/-! ## Derivations from either -/

/-- Once its rules are read, a derivation by a named strategy is one from the table. -/
theorem derive_of_readTable {name : Word} {strategy : Strategy} {rules : Value}
    {table : RuleTable Word} (hname : Strategy.ofValue (.text name) = .ok strategy)
    (hrules : strategy.readTable (.value rules) = .ok table) (initiator : Word) (iterations : Value)
    (source : Source) (bound : Option Int) :
    derive (.text name) initiator (.value rules) iterations source bound =
      deriveFrom strategy initiator table iterations source bound := by
  unfold derive
  rw [hname]
  exact deriveWith_of_readTable hrules initiator iterations source bound

/-- With pairs and with a text that give the same table, the contextual and the deterministic
    strategy leave the same trace, for all iterations, those that are refused included. -/
theorem derive_contextual_eq_deterministic {pairs : Value} {text : Word} {table : RuleTable Word}
    (hpairs : RuleTable.ofPairs pairs = .ok table) (htext : RuleTable.parse text = .ok table)
    (initiator : Word) (iterations : Value) (source : Source) (bound : Option Int) :
    derive (.text "contextual".toList) initiator (.value pairs) iterations source bound =
      derive (.text "deterministic".toList) initiator (.value (.text text)) iterations source
        bound := by
  have hcontextual : Strategy.contextual.readTable (.value pairs) = .ok table := hpairs
  have hdeterministic : Strategy.deterministic.readTable (.value (.text text)) = .ok table := htext
  rw [derive_of_readTable rfl hcontextual, derive_of_readTable rfl hdeterministic]
  rfl

/-- **Pairs and text are two encodings of one table.**  A table that was read from pairs is read
    back, with the same rules in the same order, from the text that it shows exactly if none of its
    keys and productions holds a blank; then the contextual strategy with the pairs and the
    deterministic one with the text leave the same trace, from every axiom, for all iterations and
    under every bound.  A table that was read from text holds no blank, and so it is read back. -/
theorem pairs_and_text_encode_one_table :
    (∀ (pairs : Value) (table : RuleTable Word), RuleTable.ofPairs pairs = .ok table →
      ((∃ t, RuleTable.parse table.toText = .ok t ∧ t.rules = table.rules) ↔
        ∀ r ∈ table.rules, Text.BlankFree r.key ∧ Text.BlankFree r.production) ∧
      ((∀ r ∈ table.rules, Text.BlankFree r.key ∧ Text.BlankFree r.production) →
        ∀ (initiator : Word) (iterations : Value) (source : Source) (bound : Option Int),
          derive (.text "contextual".toList) initiator (.value pairs) iterations source bound =
            derive (.text "deterministic".toList) initiator (.value (.text table.toText)) iterations
              source bound)) ∧
    ∀ (text : Word) (table : RuleTable Word), RuleTable.parse text = .ok table →
      (∀ r ∈ table.rules, Text.BlankFree r.key ∧ Text.BlankFree r.production) ∧
        RuleTable.parse table.toText = .ok table := by
  refine ⟨?_, ?_⟩
  · intro pairs table h
    have hkeys := RuleTable.symbolKeys_of_ofPairs h
    refine ⟨?_, ?_⟩
    · refine Iff.trans ?_ (RuleTable.parse_toText_iff hkeys)
      constructor
      · rintro ⟨t, ht, hrules⟩
        rw [ht, RuleTable.ext hrules]
      · intro hparse
        exact ⟨table, hparse, rfl⟩
    · intro hblank initiator iterations source bound
      have hparse := (RuleTable.parse_toText_iff hkeys).mpr hblank
      exact derive_contextual_eq_deterministic h hparse initiator iterations source bound
  · intro text table h
    have hunspaced := RuleTable.unspaced_of_parse h
    exact ⟨hunspaced, (RuleTable.parse_toText_iff (RuleTable.symbolKeys_of_parse h)).mpr hunspaced⟩

/-- A key and a production of equals signs and an empty production: all are read back, and both
    strategies derive the same.  They are also read from text with more blanks than are shown.  A
    pair with a blank in its production shows a text that is read as two rules, and so it is not
    read back. -/
theorem pairs_and_text_encode_one_table_equals_signs :
    ∃ (signs spaced : Value) (table other : RuleTable Word),
      RuleTable.ofPairs signs = .ok table ∧ table.toText = "===X= X=".toList ∧
      (∀ r ∈ table.rules, Text.BlankFree r.key ∧ Text.BlankFree r.production) ∧
      (∃ t, RuleTable.parse table.toText = .ok t ∧ t.rules = table.rules) ∧
      (derive (.text "contextual".toList) ['='] (.value signs) (.int 1) (.seed 0) none).outcome =
        .ok "=X=".toList ∧
      derive (.text "contextual".toList) ['='] (.value signs) (.int 1) (.seed 0) none =
        derive (.text "deterministic".toList) ['='] (.value (.text table.toText)) (.int 1) (.seed 0)
          none ∧
      RuleTable.parse "  ===X=\tX=\n".toList = .ok table ∧
      RuleTable.parse table.toText = .ok table ∧
      RuleTable.ofPairs spaced = .ok other ∧ other.toText = "X=Y Z=W".toList ∧
      (∃ t, RuleTable.parse other.toText = .ok t) ∧
      ¬ ∃ t, RuleTable.parse other.toText = .ok t ∧ t.rules = other.rules := by
  have hsigns : RuleTable.ofPairs (.list [.tuple [.text ['='], .text "=X=".toList],
      .list [.text ['X'], .text []]]) =
        .ok (RuleTable.ofRules [⟨['='], ['=', 'X', '=']⟩, ⟨['X'], []⟩]) := rfl
  have hspaced : RuleTable.ofPairs (.list [.tuple [.text ['X'], .text "Y Z=W".toList]]) =
      .ok (RuleTable.ofRules [⟨['X'], ['Y', ' ', 'Z', '=', 'W']⟩]) := rfl
  have htext : RuleTable.parse "  ===X=\tX=\n".toList =
      .ok (RuleTable.ofRules [⟨['='], ['=', 'X', '=']⟩, ⟨['X'], []⟩]) := rfl
  have hblankfree : ∀ r ∈ [(⟨['='], ['=', 'X', '=']⟩ : Rule Word), ⟨['X'], []⟩],
      Text.BlankFree r.key ∧ Text.BlankFree r.production := by
    have hsign : Text.isBlank '=' = false := rfl
    have hletter : Text.isBlank 'X' = false := rfl
    simp [Text.BlankFree, hsign, hletter]
  have hblank : ¬ ∀ r ∈ [(⟨['X'], ['Y', ' ', 'Z', '=', 'W']⟩ : Rule Word)],
      Text.BlankFree r.key ∧ Text.BlankFree r.production := by
    intro h
    have hproduction := (h _ (List.mem_singleton_self _)).2
    nomatch hproduction ' ' (by simp)
  obtain ⟨hreads, hagree⟩ := pairs_and_text_encode_one_table.1 _ _ hsigns
  obtain ⟨-, hback⟩ := pairs_and_text_encode_one_table.2 _ _ htext
  have hlost := mt (pairs_and_text_encode_one_table.1 _ _ hspaced).1.mp hblank
  exact ⟨_, _, _, _, hsigns, rfl, hblankfree, hreads.mpr hblankfree, rfl,
    hagree hblankfree ['='] (.int 1) (.seed 0) none, htext, hback, hspaced, rfl, ⟨_, rfl⟩, hlost⟩

end Lindenmayer
