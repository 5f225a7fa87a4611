/-
  Where chance has nothing to decide.

  A table is UNIFORM if all rules of a symbol have the same production.  What is drawn for a symbol
  with rules is then what it is looked up as, and only one difference between the two readings of
  the table is left: a symbol without a rule vanishes when it is drawn for and stays when it is
  looked up.

  The COMPLETED table makes up for it, with a rule that leaves nothing for every such symbol of the
  ALPHABET: the symbols of the first word and of all productions.  That is enough, since a run
  writes no others, and so the stochastic derivation by a uniform table is the deterministic one by
  the completed table, whatever it draws from.
-/
import Lindenmayer.Proofs.Derivation.Alphabet
import Lindenmayer.Proofs.RuleTable.Keys

namespace Lindenmayer

/-! ## Uniform and completed tables -/

namespace RuleTable

variable {α : Type} [BEq α] [RulePart α]

/-- All rules of a symbol have the same production. -/
def Uniform (t : RuleTable α) : Prop :=
  ∀ c : Symbol, ∀ r ∈ t.rules, ∀ s ∈ t.rules,
    r.key = RulePart.ofWord [c] → s.key = RulePart.ofWord [c] → r.production = s.production

/-- The symbols of a word and of all productions. -/
def alphabet (t : RuleTable α) (w : Word) : Word :=
  w ++ t.rules.flatMap fun r => RulePart.toWord r.production

/-- The symbols of the alphabet that have no rule, each once. -/
def unruled (t : RuleTable α) (w : Word) : Word :=
  ((t.alphabet w).filter fun c => !t.contains (RulePart.ofWord [c])).eraseDups

/-- The table with a rule that leaves nothing for every symbol of the alphabet that had none. -/
def completed (t : RuleTable α) (w : Word) : RuleTable α :=
  ofRules (t.rules ++ (t.unruled w).map fun c => ⟨RulePart.ofWord [c], RulePart.ofWord []⟩)

theorem mem_alphabet_of_production {t : RuleTable α} {r : Rule α} (hr : r ∈ t.rules) {v : Word}
    (hv : RulePart.Is r.production v) (w : Word) : ∀ c ∈ v, c ∈ t.alphabet w := by
  intro c hc
  rw [← hv.toWord_eq] at hc
  exact List.mem_append_right w (List.mem_flatMap.mpr ⟨r, hr, hc⟩)

theorem mem_unruled_iff {t : RuleTable α} {w : Word} {c : Symbol} :
    c ∈ t.unruled w ↔ c ∈ t.alphabet w ∧ t.contains (RulePart.ofWord [c]) = false := by
  rw [unruled, List.mem_eraseDups, List.mem_filter, Bool.not_eq_true']

/-- A table with a rule for its whole alphabet is completed already. -/
theorem completed_eq_self {t : RuleTable α} {w : Word}
    (h : ∀ c ∈ t.alphabet w, t.contains (RulePart.ofWord [c]) = true) : t.completed w = t := by
  have hnone : t.unruled w = [] := by
    apply List.eq_nil_iff_forall_not_mem.mpr
    intro c hc
    obtain ⟨hmem, hnot⟩ := mem_unruled_iff.mp hc
    rw [h c hmem] at hnot
    nomatch hnot
  apply RuleTable.ext
  rw [completed, hnone, List.map_nil, List.append_nil, rules_ofRules]

variable [LawfulRulePart α]

/-- What is drawn is written with the alphabet. -/
theorem picking_closed {σ : Type} [Chooser σ] (t : RuleTable α) (w : Word) :
    (t.picking : Replacement σ α).Closed (· ∈ t.alphabet w) := by
  intro c _ g v hv
  rcases word_of_pick hv with ⟨r, hr, hword⟩ | rfl
  · exact mem_alphabet_of_production hr hword w
  · exact fun d hd => absurd hd List.not_mem_nil

variable [SharpWords α]

/-- The productions of a symbol in the completed table: those it had, and nothing if it had no
    rule. -/
theorem mem_productions_completed {t : RuleTable α} {w : Word} {c : Symbol} {part : α} :
    part ∈ (t.completed w).productions (RulePart.ofWord [c]) ↔
      part ∈ t.productions (RulePart.ofWord [c]) ∨
        c ∈ t.unruled w ∧ part = RulePart.ofWord [] := by
  have hsharp : IsSharp (RulePart.ofWord [c] : α) := SharpWords.isSharp_ofWord [c]
  rw [mem_productions_iff _ hsharp, mem_productions_iff _ hsharp]
  constructor
  · rintro ⟨r, hr, hkey, hpart⟩
    rcases List.mem_append.mp hr with hr | hr
    · exact Or.inl ⟨r, hr, hkey, hpart⟩
    · obtain ⟨d, hd, rfl⟩ := List.mem_map.mp hr
      have hdc : [d] = [c] := RulePart.ofWord_injective hkey
      obtain rfl : d = c := List.singleton_inj.mp hdc
      exact Or.inr ⟨hd, hpart.symm⟩
  · rintro (⟨r, hr, hkey, hpart⟩ | ⟨hc, hpart⟩)
    · exact ⟨r, List.mem_append_left _ hr, hkey, hpart⟩
    · exact ⟨_, List.mem_append_right _ (List.mem_map_of_mem hc), rfl, hpart.symm⟩

/-- **One symbol**: what is drawn for it from a uniform table is what it is looked up as in the
    completed one. -/
theorem Uniform.pick_eq_lookup {σ : Type} [Chooser σ] {t : RuleTable α} (h : t.Uniform) {w : Word}
    {c : Symbol} (hc : c ∈ t.alphabet w) (g : σ) :
    (t.pick (RulePart.ofWord [c]) g).1 = (t.completed w).lookup (RulePart.ofWord [c]) := by
  have hsharp : IsSharp (RulePart.ofWord [c] : α) := SharpWords.isSharp_ofWord [c]
  rcases t.pick_cases (RulePart.ofWord [c]) g with hmem | ⟨hnone, hpick⟩
  · -- the symbol has rules, so the completed table has the same ones for it
    have hlookup := lookup_mem (mem_productions_completed.mpr (Or.inl hmem) :
      _ ∈ (t.completed w).productions (RulePart.ofWord [c]))
    -- the added rules are for symbols without one, so both productions are those of old rules
    rcases mem_productions_completed.mp hlookup with hold | ⟨hunruled, -⟩
    · obtain ⟨r, hr, hrkey, hrpart⟩ := (t.mem_productions_iff hsharp).mp hmem
      obtain ⟨s, hs, hskey, hspart⟩ := (t.mem_productions_iff hsharp).mp hold
      rw [← hrpart, ← hspart]
      exact h c r hr s hs hrkey hskey
    · have hnil := (t.productions_eq_nil_iff hsharp).mpr (mem_unruled_iff.mp hunruled).2
      rw [hnil] at hmem
      exact absurd hmem List.not_mem_nil
  · -- the symbol has none, and vanishes in both
    have hunruled : c ∈ t.unruled w :=
      mem_unruled_iff.mpr ⟨hc, (t.productions_eq_nil_iff hsharp).mp hnone⟩
    have hlookup := lookup_mem (mem_productions_completed.mpr (Or.inr ⟨hunruled, rfl⟩) :
      _ ∈ (t.completed w).productions (RulePart.ofWord [c]))
    rcases mem_productions_completed.mp hlookup with hold | ⟨-, hnothing⟩
    · rw [hnone] at hold
      exact absurd hold List.not_mem_nil
    · rw [hpick, hnothing]

end RuleTable

/-! ## The two derivations -/

variable {α : Type} [BEq α] [RulePart α] [LawfulRulePart α] [SharpWords α]

/-- **Stochastic and deterministic derivations differ by vanishing only.**  From any source that
    gives a generator, a uniform table derives what its completion on the alphabet derives
    deterministically from the axiom without its blanks: the same word or the same error, with the
    same reports.  If the table has a rule for the whole alphabet, that is what the table itself
    derives deterministically. -/
theorem stochastic_vanishing {table : RuleTable α} (huniform : table.Uniform) (initiator : Word)
    {source : Source} {g : Generator} (hg : source.enter = .ok g) (unused : Source) (n : Nat)
    (bound : Option Int) :
    ((deriveFrom .stochastic initiator table (.int n) source bound).outcome =
        (deriveFrom .deterministic (Text.strip initiator)
          (table.completed (Text.strip initiator)) (.int n) unused bound).outcome ∧
      (deriveFrom .stochastic initiator table (.int n) source bound).events =
        (deriveFrom .deterministic (Text.strip initiator)
          (table.completed (Text.strip initiator)) (.int n) unused bound).events) ∧
    ((∀ c ∈ table.alphabet (Text.strip initiator),
        table.contains (RulePart.ofWord [c]) = true) →
      (deriveFrom .stochastic initiator table (.int n) source bound).outcome =
          (deriveFrom .deterministic (Text.strip initiator) table (.int n) unused bound).outcome ∧
        (deriveFrom .stochastic initiator table (.int n) source bound).events =
          (deriveFrom .deterministic (Text.strip initiator) table (.int n) unused bound).events) := by
  have hsame : (deriveFrom .stochastic initiator table (.int n) source bound).outcome =
        (deriveFrom .deterministic (Text.strip initiator)
          (table.completed (Text.strip initiator)) (.int n) unused bound).outcome ∧
      (deriveFrom .stochastic initiator table (.int n) source bound).events =
        (deriveFrom .deterministic (Text.strip initiator)
          (table.completed (Text.strip initiator)) (.int n) unused bound).events := by
    rw [deriveFrom_stochastic table initiator hg n bound, deriveFrom_deterministic]
    -- the states differ, a generator here and a source there, but no replacement depends on them
    have hpick : ∀ c ∈ table.alphabet (Text.strip initiator), ∀ (g : Generator) (s : Source),
        (table.picking c g).1 =
          ((table.completed (Text.strip initiator)).looking c s).1 :=
      fun c hc g _ => huniform.pick_eq_lookup hc g
    obtain ⟨houtcome, hlengths⟩ := run_lockstep hpick (table.picking_closed (Text.strip initiator))
      bound n (fun c hc => List.mem_append_left _ hc) g unused
    refine ⟨houtcome, ?_⟩
    unfold Trace.events Trace.mapState
    rw [hlengths]
  refine ⟨hsame, fun hruled => ?_⟩
  rw [RuleTable.completed_eq_self hruled] at hsame
  exact hsame

/-- A symbol without a rule vanishes, so that pass 2 exceeds the bound by one symbol less; and a
    table that has a rule for its whole alphabet. -/
theorem stochastic_vanishing_seeded :
    (RuleTable.ofRules [⟨['F'], "FXF".toList⟩, ⟨['F'], "FXF".toList⟩] : RuleTable Word).Uniform ∧
    (RuleTable.ofRules [⟨['F'], ['F', 'F']⟩] : RuleTable Word).Uniform ∧
    Source.enter (.seed 7) = .ok (.ofSeed 7) ∧
    (deriveFrom .stochastic [' ', 'F'] (RuleTable.ofRules [⟨['F'], "FXF".toList⟩,
      ⟨['F'], "FXF".toList⟩] : RuleTable Word) (.int (2 : Nat)) (.seed 7) (some 6)).outcome =
        .ok "FXFFXF".toList ∧
    (deriveFrom .stochastic [' ', 'F'] (RuleTable.ofRules [⟨['F'], "FXF".toList⟩,
      ⟨['F'], "FXF".toList⟩] : RuleTable Word) (.int (2 : Nat)) (.seed 7) (some 5)).outcome =
        .error (.expansionLimit 2 5) ∧
    (∀ c ∈ (RuleTable.ofRules [⟨['F'], ['F', 'F']⟩] : RuleTable Word).alphabet ['F'],
      (RuleTable.ofRules [⟨['F'], ['F', 'F']⟩] : RuleTable Word).contains [c] = true) ∧
    (deriveFrom .stochastic [' ', 'F'] (RuleTable.ofRules [⟨['F'], ['F', 'F']⟩] : RuleTable Word)
      (.int (2 : Nat)) (.seed 7) none).outcome = .ok ['F', 'F', 'F', 'F'] := by
  have hseed : Source.enter (.seed 7) = .ok (.ofSeed 7) := rfl
  have htwice : (RuleTable.ofRules [⟨['F'], "FXF".toList⟩, ⟨['F'], "FXF".toList⟩] :
      RuleTable Word).Uniform := by
    intro c r hr s hs _ _
    simp only [RuleTable.rules_ofRules, List.mem_cons, List.not_mem_nil, or_false, or_self]
      at hr hs
    rw [hr, hs]
  have honce : (RuleTable.ofRules [⟨['F'], ['F', 'F']⟩] : RuleTable Word).Uniform := by
    intro c r hr s hs _ _
    rw [List.mem_singleton.mp hr, List.mem_singleton.mp hs]
  have hruled : ∀ c ∈ (RuleTable.ofRules [⟨['F'], ['F', 'F']⟩] : RuleTable Word).alphabet ['F'],
      (RuleTable.ofRules [⟨['F'], ['F', 'F']⟩] : RuleTable Word).contains [c] = true := by
    intro c hc
    have hsymbols : c ∈ List.replicate 3 'F' := hc
    rw [List.eq_of_mem_replicate hsymbols]
    rfl
  refine ⟨htwice, honce, hseed, ?_, ?_, hruled, ?_⟩
  · rw [(stochastic_vanishing htwice [' ', 'F'] hseed (.entropy 0) 2 (some 6)).1.1]
    rfl
  · rw [(stochastic_vanishing htwice [' ', 'F'] hseed (.entropy 0) 2 (some 5)).1.1]
    rfl
  · rw [((stochastic_vanishing honce [' ', 'F'] hseed (.entropy 0) 2 none).2 hruled).1]
    rfl

end Lindenmayer
