/-
  Balanced rules.

  A table is balanced if each of its productions closes the scopes that it opens and no others.  The
  prefixes of a derived word cut through productions, so that there is little to say about them one
  by one; but what a word does to the number of open scopes is said for every number at once
  (`scopesAfter`), and in this form it is put together from what the replacements of its symbols do:

  * where symbols are looked up, a symbol with a rule counts for nothing before and behind the pass,
    and any other is copied.  As long as the brackets are among these, a pass keeps the count of the
    whole word (`RuleTable.Balanced.lookup`).
  * where symbols are drawn for, brackets without a rule vanish.  What is left are whole
    productions, and the count of what they make together is zero (`RuleTable.Balanced.pick`).

  Both are the same fact about a pass: it may be counted as if each symbol were replaced by itself,
  or each by nothing (`Replacement.CountsAs`).
-/
import Lindenmayer.Proofs.LSystem.Failures
import Lindenmayer.Proofs.RuleTable.Keys
import Lindenmayer.Proofs.Turtle.Scopes

namespace Lindenmayer

variable {σ α : Type} [RulePart α]

/-! ## Counting a pass -/

/-- `CountsAs replace f` — to the number of open scopes, symbols are replaced by what `f` says. -/
def Replacement.CountsAs (replace : Replacement σ α) (f : Symbol → Word) : Prop :=
  ∀ c state depth,
    scopesAfter depth (RulePart.toWord (replace c state).1) = scopesAfter depth (f c)

/-- What a pass writes opens and closes as many scopes as the pieces that its symbols count as. -/
theorem Replacement.CountsAs.expand {replace : Replacement σ α} {f : Symbol → Word}
    (h : replace.CountsAs f) (depth : Nat) (w : Word) (state : σ) :
    scopesAfter depth (expand replace w state).1 = scopesAfter depth (w.flatMap f) := by
  induction w generalizing depth state with
  | nil => rfl
  | cons c w ih =>
    show scopesAfter depth (RulePart.toWord (replace c state).1 ++ _) = _
    rw [List.flatMap_cons, scopesAfter_append, scopesAfter_append, h]
    exact Option.bind_congr fun d _ => ih d _

/-- Passes that count as copying every symbol keep the number of open scopes. -/
theorem scopesAfter_stage_of_copied {replace : Replacement σ α}
    (h : replace.CountsAs fun c => [c]) (depth : Nat) (w : Word) (state : σ) (i : Nat) :
    scopesAfter depth (stage replace w state i).1 = scopesAfter depth w := by
  induction i with
  | zero => rfl
  | succ i ih =>
    show scopesAfter depth (expand replace _ _).1 = _
    rw [h.expand, List.flatMap_singleton']
    exact ih

/-- A pass that counts as dropping every symbol leaves no trace in the number of open scopes. -/
theorem scopesAfter_stage_of_dropped {replace : Replacement σ α}
    (h : replace.CountsAs fun _ => []) (depth : Nat) (w : Word) (state : σ) (i : Nat) :
    scopesAfter depth (stage replace w state (i + 1)).1 = some depth := by
  show scopesAfter depth (expand replace _ _).1 = _
  rw [h.expand, List.flatMap_eq_nil_iff.mpr fun _ _ => rfl]
  rfl

/-! ## Balanced tables -/

namespace RuleTable

variable [BEq α]

/-- All productions of the table are balanced words. -/
def Balanced (t : RuleTable α) : Prop :=
  ∀ r ∈ t.rules, ∃ w, RulePart.Is r.production w ∧ scopeDepth w = .ok 0

namespace Balanced

variable {t : RuleTable α}

theorem textual (h : t.Balanced) : t.Textual := by
  intro r hr
  obtain ⟨w, hw, -⟩ := h r hr
  exact ⟨w, hw⟩

/-- A production leaves every number of scopes as it is. -/
theorem scopesAfter_production (h : t.Balanced) {r : Rule α} (hr : r ∈ t.rules) (depth : Nat) :
    scopesAfter depth (RulePart.toWord r.production) = some depth := by
  obtain ⟨w, hw, hbalanced⟩ := h r hr
  rw [hw.toWord_eq]
  exact scopesAfter_of_balanced hbalanced depth

variable [LawfulRulePart α]

/-- **Looking up** in a table that leaves the brackets alone counts as copying. -/
theorem lookup [SharpWords α] (h : t.Balanced)
    (hopen : t.contains (RulePart.ofWord ['[']) = false)
    (hclose : t.contains (RulePart.ofWord [']']) = false) :
    (t.looking : Replacement σ α).CountsAs fun c => [c] := by
  intro c state depth
  show scopesAfter depth (RulePart.toWord (t.lookup (RulePart.ofWord [c]))) = _
  have hsharp : IsSharp (RulePart.ofWord [c] : α) := SharpWords.isSharp_ofWord [c]
  cases hrule : t.contains (RulePart.ofWord [c]) with
  | false =>
    rw [lookup_eq, (t.productions_eq_nil_iff hsharp).mpr hrule]
    show scopesAfter depth (RulePart.toWord (RulePart.ofWord [c] : α)) = _
    rw [RulePart.toWord_ofWord]
  | true =>
    -- a symbol with a rule is no bracket
    have hbracket : ∀ b : Symbol, t.contains (RulePart.ofWord [b]) = false → c ≠ b := by
      rintro b hb rfl
      exact nomatch hb.symm.trans hrule
    have hsome : t.productions (RulePart.ofWord [c]) ≠ [] := fun hnil =>
      nomatch ((t.productions_eq_nil_iff hsharp).mp hnil).symm.trans hrule
    obtain ⟨part, hpart⟩ := List.exists_mem_of_ne_nil _ hsome
    obtain ⟨r, hr, -, hproduction⟩ := (t.mem_productions_iff hsharp).mp (lookup_mem hpart)
    rw [← hproduction, h.scopesAfter_production hr, scopesAfter_singleton,
      depthAfter_other (hbracket _ hopen) (hbracket _ hclose)]

/-- **Drawing for symbols** counts as dropping them. -/
theorem pick [Chooser σ] (h : t.Balanced) :
    (t.picking : Replacement σ α).CountsAs fun _ => [] := by
  intro c state depth
  show scopesAfter depth (RulePart.toWord (t.pick (RulePart.ofWord [c]) state).1) = some depth
  obtain ⟨w, hw⟩ := h.textual.pick (RulePart.ofWord [c]) state
  rcases word_of_pick hw with ⟨r, hr, hproduction⟩ | hempty
  · rw [hw.toWord_eq, ← hproduction.toWord_eq]
    exact h.scopesAfter_production hr depth
  · rw [hw.toWord_eq, hempty]
    rfl

/-- A derivation that looks symbols up, the brackets having no rules, keeps the number of scopes
    that a word leaves open. -/
theorem scopesAfter_looking [SharpWords α] (h : t.Balanced)
    (hopen : t.contains (RulePart.ofWord ['[']) = false)
    (hclose : t.contains (RulePart.ofWord [']']) = false) {strategy : Strategy}
    (hstrategy : strategy ≠ .stochastic) {initiator w : Word} {source : Source} {n : Nat}
    {bound : Option Int}
    (hw : (deriveFrom strategy initiator t (.int n) source bound).outcome = .ok w) (depth : Nat) :
    scopesAfter depth w = scopesAfter depth initiator := by
  rw [deriveFrom_looking hstrategy] at hw
  obtain ⟨-, rfl, -⟩ := stage_of_run_ok h.textual.looking hw
  exact scopesAfter_stage_of_copied (h.lookup hopen hclose) depth initiator source n

/-- What is derived at random, whatever makes the choices, is balanced from the first pass on. -/
theorem scopeDepth_stochastic [Chooser σ] (h : t.Balanced) {initiator w : Word} {state : σ} {n : Nat}
    (hn : 0 < n) {bound : Option Int} (hw : (stochastic t bound n initiator state).outcome = .ok w) :
    scopeDepth w = .ok 0 := by
  obtain ⟨-, rfl, -⟩ := stage_of_run_ok h.textual.picking hw
  obtain ⟨i, rfl⟩ := Nat.exists_eq_add_one.mpr hn
  rw [scopeDepth_eq_ok_iff_scopesAfter]
  exact scopesAfter_stage_of_dropped h.pick 0 (Text.strip initiator) state i

theorem scopeDepth_deriveFrom (h : t.Balanced) {initiator w : Word} {source : Source} {n : Nat}
    (hn : 0 < n) {bound : Option Int}
    (hw : (deriveFrom .stochastic initiator t (.int n) source bound).outcome = .ok w) :
    scopeDepth w = .ok 0 := by
  obtain ⟨g, hg⟩ := enter_of_deriveFrom_ok hw
  rw [deriveFrom_stochastic t initiator hg] at hw
  have hrun : (stochastic t bound n initiator g).outcome = .ok w := hw
  exact h.scopeDepth_stochastic hn hrun

end Balanced

end RuleTable

/-! ## Systems with balanced rules -/

/-- There is no generator for a seed below zero, and for every other source there is one. -/
theorem Source.enter_error {source : Source} {cause : Error} (h : source.enter = .error cause) :
    cause = .negativeSeed := by
  cases source with
  | entropy n => nomatch h
  | generator g => nomatch h
  | seed n =>
    cases n with
    | ofNat n => nomatch h
    | negSucc n => exact (Except.error.inj h).symm

/-- No build fails for want of an open scope. -/
theorem LSystem.build_scopeFree (s : LSystem) (source : Source) :
    ScopeFree (s.build source).outcome := by
  intro cause h
  rw [build_eq_deriveFrom] at h
  rcases deriveFrom_error s.strategy (RuleTable.textual_of_words s.table) h with
    ⟨pass, m, -, rfl⟩ | herr
  · exact fun hscopes => nomatch hscopes
  · obtain rfl := Source.enter_error herr
    exact fun hscopes => nomatch hscopes

/-- A system whose words the count accepts has no picture that fails for want of an open scope. -/
theorem LSystem.render_scopeFree {s : LSystem} {source : Source}
    (h : ∀ w, (s.build source).outcome = .ok w → Accepted w) (color : Color) (start : Start) :
    ScopeFree (s.render color start source).outcome := by
  rw [outcome_render]
  cases hbuild : (s.build source).outcome with
  | error cause => exact .error (s.build_scopeFree source cause hbuild)
  | ok w => exact (draw_of_accepted (h w hbuild) _ _ start).map _

/-- **Balanced rules keep words balanced**, in tables of words as well as in tables that nobody
    checked.  Without a rule for a bracket, a word that is derived by looking symbols up is refused
    exactly if the initiator is, and otherwise leaves as many scopes open.  A word that is derived
    at random is balanced from the first pass on, whatever the initiator and the choices.  So a
    picture of a system with such rules never fails for its brackets, from any start; where symbols
    are looked up this needs an initiator that the count accepts. -/
theorem balanced_rules [BEq α] [LawfulRulePart α] [SharpWords α] :
    (∀ table : RuleTable α, table.Balanced → ∀ (initiator : Word) (n : Nat) (bound : Option Int),
      (table.contains (RulePart.ofWord ['[']) = false →
        table.contains (RulePart.ofWord [']']) = false →
        ∀ strategy source w, strategy ≠ .stochastic →
          (deriveFrom strategy initiator table (.int n) source bound).outcome = .ok w →
          ((∃ i, scopeDepth w = .error (.unmatchedClose i)) ↔
            ∃ i, scopeDepth initiator = .error (.unmatchedClose i)) ∧
          ∀ d, scopeDepth w = .ok d ↔ scopeDepth initiator = .ok d) ∧
      (0 < n →
        (∀ source w,
          (deriveFrom .stochastic initiator table (.int n) source bound).outcome = .ok w →
            scopeDepth w = .ok 0) ∧
        ∀ (τ : Type) [Chooser τ] (state : τ) (w : Word),
          (stochastic table bound n initiator state).outcome = .ok w → scopeDepth w = .ok 0)) ∧
    ∀ s : LSystem, s.table.Balanced →
      (s.strategy = .stochastic → 0 < s.descriptor.iterations) →
      (s.strategy ≠ .stochastic → s.table.contains ['['] = false ∧ s.table.contains [']'] = false ∧
        Accepted s.descriptor.initiator) →
      ∀ color start source, ScopeFree (s.render color start source).outcome := by
  refine ⟨?_, ?_⟩
  · intro table h initiator n bound
    refine ⟨?_, ?_⟩
    · intro hopen hclose strategy source w hstrategy hw
      exact scopeDepth_congr (h.scopesAfter_looking hopen hclose hstrategy hw 0)
    · intro hn
      refine ⟨?_, fun τ _ state w hw => h.scopeDepth_stochastic hn hw⟩
      intro source w hw
      exact h.scopeDepth_deriveFrom hn hw
  · intro s h hiterations hbrackets color start source
    refine LSystem.render_scopeFree ?_ color start
    intro w hw
    rw [LSystem.build_eq_deriveFrom] at hw
    by_cases hstrategy : s.strategy = .stochastic
    · rw [hstrategy] at hw
      exact ⟨0, h.scopeDepth_deriveFrom (hiterations hstrategy) hw⟩
    · obtain ⟨hopen, hclose, d, hd⟩ := hbrackets hstrategy
      refine ⟨d, (scopeDepth_eq_ok_iff_scopesAfter w d).mpr ?_⟩
      rw [h.scopesAfter_looking hopen hclose hstrategy hw]
      exact (scopeDepth_eq_ok_iff_scopesAfter _ d).mp hd

/-- A closing bracket too many in the initiator stays where symbols are looked up, and is gone after
    one pass where they are drawn for; then it does no harm to the picture. -/
theorem balanced_rules_unmatched :
    ∃ table : RuleTable Word, RuleTable.parse "F=F[+F] X=".toList = .ok table ∧ table.Balanced ∧
      table.contains ['['] = false ∧ table.contains [']'] = false ∧
      (∃ w, (deriveFrom .deterministic "F]X".toList table (.int 2) (.seed 0) none).outcome = .ok w ∧
        ∃ i, scopeDepth w = .error (.unmatchedClose i)) ∧
      (∃ w, (deriveFrom .stochastic "F]X".toList table (.int 2) (.seed 0) none).outcome = .ok w ∧
        scopeDepth w = .ok 0) ∧
      ∃ s : LSystem, LSystem.ofValues (.text "stochastic".toList) (.text "F]X".toList)
          (.value (.text "F=F[+F] X=".toList)) (.int 90) (.int 2) (.int 10) none = .ok s ∧
        ScopeFree (s.render .default (.value .null) (.seed 0)).outcome := by
  have hbalanced : (RuleTable.ofRules [⟨['F'], "F[+F]".toList⟩, ⟨['X'], []⟩]).Balanced := by
    intro r hr
    rcases List.mem_cons.mp hr with rfl | hr
    · exact ⟨_, rfl, rfl⟩
    · obtain rfl := List.mem_singleton.mp hr
      exact ⟨_, rfl, rfl⟩
  obtain ⟨hderive, hrender⟩ := balanced_rules (α := Word)
  obtain ⟨hlooking, hpicking⟩ := hderive _ hbalanced "F]X".toList 2 none
  refine ⟨_, rfl, hbalanced, rfl, rfl, ?_, ?_, ?_⟩
  · refine ⟨_, rfl, ?_⟩
    exact (hlooking rfl rfl .deterministic (.seed 0) _ (fun h => nomatch h) rfl).1.mpr ⟨1, rfl⟩
  · exact ⟨_, rfl, (hpicking (by decide)).1 (.seed 0) _ rfl⟩
  · refine ⟨_, rfl, hrender _ hbalanced (fun _ => by decide) (fun h => absurd rfl h) _ _ _⟩

end Lindenmayer
