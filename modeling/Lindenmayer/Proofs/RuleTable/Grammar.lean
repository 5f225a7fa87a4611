/-
  The grammar of rule texts.

  A rule text is read token by token, and its tokens are its maximal runs of characters that are no
  blanks.  A token writes a rule down if its second character is an equals sign; what is before it is
  the key, what is behind it the production.  So a text is a rule text exactly if all its tokens write
  rules down, it is refused at the leftmost one that does not, and a text that is put together from
  two with blanks between them is read as the two are, one after the other.
-/
import Lindenmayer.Proofs.Text.Runs

namespace Lindenmayer

namespace Rule

/-- The token writes a rule down: it has two characters at least, and the second is an equals sign. -/
def IsToken (token : Word) : Prop :=
  2 ≤ token.length ∧ token[1]? = some '='

/-- The first character of a token, and what stands from the third one on. -/
def split (token : Word) : Rule Word :=
  ⟨token.take 1, token.drop 2⟩

theorem ofToken_of_isToken {token : Word} (h : IsToken token) : ofToken token = .ok (split token) := by
  obtain ⟨hlength, hsign⟩ := h
  match token, hlength, hsign with
  | _ :: _ :: _, _, hsign =>
    obtain rfl := Option.some.inj hsign
    rfl

theorem isToken_of_ofToken {token : Word} {r : Rule Word} (h : ofToken token = .ok r) :
    IsToken token := by
  obtain ⟨c, -, rfl⟩ := ofToken_eq_ok h
  exact ⟨Nat.le_add_left 2 r.production.length, rfl⟩

/-- A token is read exactly if it writes a rule down. -/
theorem exists_ofToken_iff {token : Word} : (∃ r, ofToken token = .ok r) ↔ IsToken token := by
  constructor
  · rintro ⟨r, hr⟩
    exact isToken_of_ofToken hr
  · intro h
    exact ⟨split token, ofToken_of_isToken h⟩

/-- Any other token is refused, and named. -/
theorem ofToken_of_not_isToken {token : Word} (h : ¬ IsToken token) :
    ofToken token = .error (.malformedRule (.token token)) := by
  unfold ofToken
  split
  · rename_i r hread
    have hok : ofToken token = .ok r := by
      unfold ofToken
      rw [hread]
    exact absurd (isToken_of_ofToken hok) h
  · rfl

end Rule

namespace RuleTable

/-- **Which texts are rule texts, and of which table**: those whose tokens all write rules down, and
    of the table of these rules. -/
theorem parse_eq_ok_iff {text : Word} {table : RuleTable Word} :
    parse text = .ok table ↔ (∀ token ∈ Text.tokens text, Rule.IsToken token) ∧
      table.rules = (Text.tokens text).map Rule.split := by
  have hread : (∀ token ∈ Text.tokens text, Rule.IsToken token) →
      (Text.tokens text).mapM Rule.ofToken = .ok ((Text.tokens text).map Rule.split) := by
    intro htokens
    rw [mapM_eq_ok_iff, List.map_map]
    exact List.map_congr_left fun token hmem => Rule.ofToken_of_isToken (htokens token hmem)
  rw [parse, ofRules_map_eq_ok_iff]
  constructor
  · intro h
    have htokens : ∀ token ∈ Text.tokens text, Rule.IsToken token := by
      intro token hmem
      exact Rule.exists_ofToken_iff.mp (exists_mapM_eq_ok_iff.mp ⟨_, h⟩ token hmem)
    exact ⟨htokens, Except.ok.inj (h.symm.trans (hread htokens))⟩
  · rintro ⟨htokens, hrules⟩
    rw [hrules]
    exact hread htokens

/-- A text is refused at its leftmost token that writes no rule down. -/
theorem parse_of_not_isToken {text : Word} {before : List Word} {token : Word} {after : List Word}
    (htokens : Text.tokens text = before ++ token :: after) (hbefore : ∀ t ∈ before, Rule.IsToken t)
    (h : ¬ Rule.IsToken token) : parse text = .error (.malformedRule (.token token)) := by
  have hread : ∀ t ∈ before, ∃ r, Rule.ofToken t = .ok r :=
    fun t ht => Rule.exists_ofToken_iff.mpr (hbefore t ht)
  rw [parse, htokens, mapM_of_first_error hread (Rule.ofToken_of_not_isToken h)]
  rfl

/-- **With blanks between them two texts are read one after the other.** -/
theorem parse_append_blanks {w : Word} (hne : w ≠ []) (hw : ∀ c ∈ w, Text.isBlank c = true)
    (a b : Word) :
    parse (a ++ w ++ b) = do
      let s ← parse a
      let t ← parse b
      return ofRules (s.rules ++ t.rules) := by
  unfold parse
  rw [Text.tokens_append_blanks hne hw, List.mapM_append]
  cases (Text.tokens a).mapM Rule.ofToken with
  | error cause => rfl
  | ok rules =>
    cases (Text.tokens b).mapM Rule.ofToken with
    | error cause => rfl
    | ok rules' => rfl

end RuleTable

/-- **Reading accepts exactly the rule texts.**  Take the runs of a text, which are its longest
    stretches without blanks.  The text is read exactly if every run has two characters at least and an
    equals sign as its second.  The rules are then, run by run, the first character and what stands
    from the third one on; so a key is one character that is no blank, and no production holds a blank.
    Otherwise the text is refused, and the leftmost run that is no rule is named.  Two texts with
    blanks between them are read as the rules of the first and then those of the second; if one of them
    is refused, so is the whole, for the first one's cause if that one is. -/
theorem reading_accepts_rule_texts :
    (∀ text : Word, ∃ runs : List Word, Text.AreRuns text runs ∧
      ((∃ table, RuleTable.parse text = .ok table) ↔
        ∀ run ∈ runs, 2 ≤ run.length ∧ run[1]? = some '=') ∧
      (∀ table, RuleTable.parse text = .ok table →
        table.rules = runs.map (fun run => ⟨run.take 1, run.drop 2⟩) ∧
        ∀ r ∈ table.rules, (∃ c, r.key = [c] ∧ Text.isBlank c = false) ∧
          Text.BlankFree r.production) ∧
      ∀ before run after, runs = before ++ run :: after →
        (∀ r ∈ before, 2 ≤ r.length ∧ r[1]? = some '=') →
        ¬ (2 ≤ run.length ∧ run[1]? = some '=') →
        RuleTable.parse text = .error (.malformedRule (.token run)) ∧
        (Error.malformedRule (.token run)).message =
          s!"rule {(Value.text run).shown} must look like <symbol>=<production>") ∧
    ∀ a w b : Word, w ≠ [] → (∀ c ∈ w, Text.isBlank c = true) →
      (∀ s t, RuleTable.parse a = .ok s → RuleTable.parse b = .ok t →
        ∃ table, RuleTable.parse (a ++ w ++ b) = .ok table ∧ table.rules = s.rules ++ t.rules) ∧
      (∀ cause, RuleTable.parse a = .error cause → RuleTable.parse (a ++ w ++ b) = .error cause) ∧
      ∀ s cause, RuleTable.parse a = .ok s → RuleTable.parse b = .error cause →
        RuleTable.parse (a ++ w ++ b) = .error cause := by
  refine ⟨fun text => ⟨Text.tokens text, Text.areRuns_tokens text, ?_, ?_, ?_⟩, ?_⟩
  · constructor
    · rintro ⟨table, h⟩
      exact (RuleTable.parse_eq_ok_iff.mp h).1
    · intro h
      exact ⟨_, RuleTable.parse_eq_ok_iff.mpr ⟨h, RuleTable.rules_ofRules _⟩⟩
  · intro table h
    refine ⟨(RuleTable.parse_eq_ok_iff.mp h).2, fun r hr => ?_⟩
    exact ⟨RuleTable.exists_symbol_of_parse h hr, RuleTable.blankFree_of_parse h r hr _ rfl⟩
  · intro before run after htokens hbefore h
    exact ⟨RuleTable.parse_of_not_isToken htokens hbefore h, rfl⟩
  · intro a w b hne hw
    have hparts := RuleTable.parse_append_blanks hne hw a b
    refine ⟨fun s t hs ht => ?_, fun cause h => ?_, fun s cause hs h => ?_⟩
    · rw [hs, ht] at hparts
      exact ⟨_, hparts, rfl⟩
    · rw [h] at hparts
      exact hparts
    · rw [hs, h] at hparts
      exact hparts

/-- Equals signs in keys and productions, an empty production, and blanks of several kinds; then two
    texts of which the second has a token that is too short behind one that is a rule. -/
theorem reading_accepts_rule_texts_mixed :
    ∃ (s : RuleTable Word) (w : Word),
      RuleTable.parse "\u3000F=F+F \n===\u2028X=".toList = .ok s ∧
      s.rules = [⟨['F'], "F+F".toList⟩, ⟨['='], ['=']⟩, ⟨['X'], []⟩] ∧
      w ≠ [] ∧ (∀ c ∈ w, Text.isBlank c = true) ∧
      (∃ table, RuleTable.parse ("\u3000F=F+F \n===\u2028X=".toList ++ w ++ "F=F".toList) = .ok table ∧
        table.rules = s.rules ++ [⟨['F'], ['F']⟩]) ∧
      RuleTable.parse "F=F Y F".toList = .error (.malformedRule (.token ['Y'])) ∧
      RuleTable.parse ("\u3000F=F+F \n===\u2028X=".toList ++ w ++ "F=F Y F".toList) =
        .error (.malformedRule (.token ['Y'])) := by
  have hfirst : RuleTable.parse "\u3000F=F+F \n===\u2028X=".toList =
      .ok (RuleTable.ofRules [⟨['F'], ['F', '+', 'F']⟩, ⟨['='], ['=']⟩, ⟨['X'], []⟩]) := rfl
  have hsecond : RuleTable.parse "F=F".toList = .ok (RuleTable.ofRules [⟨['F'], ['F']⟩]) := rfl
  have hbad : RuleTable.parse "F=F Y F".toList = .error (.malformedRule (.token ['Y'])) := rfl
  have hblank : ∀ c ∈ ['\t', ' '], Text.isBlank c = true :=
    List.forall_mem_cons.mpr ⟨by decide, List.forall_mem_singleton.mpr (by decide)⟩
  obtain ⟨hboth, -, -⟩ := reading_accepts_rule_texts.2 "\u3000F=F+F \n===\u2028X=".toList ['\t', ' ']
    "F=F".toList (List.cons_ne_nil _ _) hblank
  obtain ⟨-, -, hlast⟩ := reading_accepts_rule_texts.2 "\u3000F=F+F \n===\u2028X=".toList ['\t', ' ']
    "F=F Y F".toList (List.cons_ne_nil _ _) hblank
  exact ⟨_, ['\t', ' '], hfirst, rfl, List.cons_ne_nil _ _, hblank, hboth _ _ hfirst hsecond, hbad,
    hlast _ _ hfirst hbad⟩

end Lindenmayer
