/-
  Growth: what the symbol counts of an axiom decide.

  Where symbols are looked up, the counts of each word are a linear function of those of the word
  before it (`RuleTable.growth`).  They decide the size of everything: how long each word is, which
  pass exceeds a bound, and how many segments a picture has, since one command draws and it draws
  one segment.  The order of the symbols, the angle, the step and the start decide none of it.
-/
import Lindenmayer.Proofs.Derivation.Counts
import Lindenmayer.Proofs.LSystem.Failures
import Lindenmayer.Proofs.Turtle.Segments

namespace Lindenmayer

variable {α : Type} [BEq α] [RulePart α]

/-! ## Derivations from words in another order -/

/-- **Words with the same symbols** are derived alike by looking symbols up: with the same lengths,
    and both to words with the same symbols or both to an error.  If productions are words, the
    error is the same and names the same pass. -/
theorem deriveFrom_looking_perm [LawfulRulePart α] (table : RuleTable α) {strategy : Strategy}
    (h : strategy ≠ .stochastic) {u v : Word} (hperm : u.Perm v) (n : Nat) (source : Source)
    (bound : Option Int) :
    (deriveFrom strategy u table (.int n) source bound).lengths =
        (deriveFrom strategy v table (.int n) source bound).lengths ∧
      ((∃ u' v' : Word, u'.Perm v' ∧
          (deriveFrom strategy u table (.int n) source bound).outcome = .ok u' ∧
          (deriveFrom strategy v table (.int n) source bound).outcome = .ok v') ∨
        ∃ cause cause' : Error,
          (deriveFrom strategy u table (.int n) source bound).outcome = .error cause ∧
          (deriveFrom strategy v table (.int n) source bound).outcome = .error cause' ∧
          (table.Textual → cause' = cause ∧ ∃ m, bound = some m ∧ cause = .expansionLimit
            ((deriveFrom strategy u table (.int n) source bound).lengths.size + 1) m)) := by
  rw [deriveFrom_looking h, deriveFrom_looking h]
  obtain ⟨hlengths, houtcome⟩ := table.runFrom_looking_perm bound n hperm #[] source
  have hlengths : (run table.looking bound n u source).lengths =
      (run table.looking bound n v source).lengths := hlengths
  refine ⟨hlengths, ?_⟩
  rcases houtcome with hok | ⟨cause, cause', hu, hv⟩
  · exact Or.inl hok
  · refine Or.inr ⟨cause, cause', hu, hv, ?_⟩
    intro htext
    obtain ⟨m, hm, hcause⟩ := run_error_names htext.looking hu
    obtain ⟨m', hm', hcause'⟩ := run_error_names htext.looking hv
    obtain rfl := Option.some.inj (hm.symm.trans hm')
    refine ⟨?_, m, hm, hcause⟩
    rw [hcause, hcause']
    exact congrArg (fun size => Error.expansionLimit (size + 1) m) (congrArg Array.size hlengths.symm)

/-! ## Pictures -/

/-- A picture has as many segments as the word that was built has symbols that draw. -/
theorem LSystem.size_segments_render {s : LSystem} {color : Color} {start : Start} {source : Source}
    {picture : Picture} (h : (s.render color start source).outcome = .ok picture) :
    ∃ w, (s.build source).outcome = .ok w ∧ picture.segments.size = w.count 'F' := by
  rw [outcome_render] at h
  obtain ⟨w, hbuild, h⟩ := bind_ok h
  cases hdraw : s.drawWord w start with
  | error cause =>
    rw [hdraw] at h
    nomatch h
  | ok t =>
    rw [hdraw] at h
    obtain rfl := Except.ok.inj h
    exact ⟨w, hbuild, size_segments_of_draw hdraw⟩

/-! ## Linear growth -/

/-- **Symbol counts grow linearly, and they decide the size of everything.**  Where symbols are looked
    up, the counts of each iterate are those of the iterate before, each symbol counting as often as
    what it is looked up as: a linear function of them.  If productions are words there is an
    iterate of every order; otherwise this holds as far as there is one.  Axioms with the same
    symbols in another order have the same lengths after every pass, under every bound, and come to
    their ends both or neither, by an error that names the same pass if productions are words.  A
    picture has as many segments as the iterate of the linear function says, whatever the angle, the
    step, the colour, the source of chance and the start. -/
theorem symbol_counts_grow_linearly [LawfulRulePart α] :
    (∀ (table : RuleTable α) (strategy : Strategy), strategy ≠ .stochastic →
      (∀ (initiator : Word) (n : Nat) (source : Source),
        (table.Textual →
          ∃ w, (deriveFrom strategy initiator table (.int n) source none).outcome = .ok w) ∧
        ∀ w w' : Word,
          (deriveFrom strategy initiator table (.int n) source none).outcome = .ok w →
          (deriveFrom strategy initiator table (.int (n + 1 : Nat)) source none).outcome = .ok w' →
          (∀ c, w'.count c = ∑ s ∈ w.toFinset,
            w.count s * (RulePart.toWord (table.lookup (RulePart.ofWord [s]))).count c) ∧
          counts w' = table.growth (counts w) ∧
          counts w = table.growth^[n] (counts initiator)) ∧
      ∀ u v : Word, u.Perm v → ∀ (n : Nat) (source : Source) (bound : Option Int),
        (deriveFrom strategy u table (.int n) source bound).lengths =
            (deriveFrom strategy v table (.int n) source bound).lengths ∧
          ((∃ u' v' : Word, u'.Perm v' ∧
              (deriveFrom strategy u table (.int n) source bound).outcome = .ok u' ∧
              (deriveFrom strategy v table (.int n) source bound).outcome = .ok v') ∨
            ∃ cause cause' : Error,
              (deriveFrom strategy u table (.int n) source bound).outcome = .error cause ∧
              (deriveFrom strategy v table (.int n) source bound).outcome = .error cause' ∧
              (table.Textual → cause' = cause ∧ ∃ m, bound = some m ∧ cause = .expansionLimit
                ((deriveFrom strategy u table (.int n) source bound).lengths.size + 1) m))) ∧
    ∀ s : LSystem, s.strategy ≠ .stochastic →
      ∀ (color : Color) (start : Start) (source : Source) (picture : Picture),
        (s.render color start source).outcome = .ok picture →
        picture.segments.size =
          (s.table.growth^[s.descriptor.iterations] (counts s.descriptor.initiator)) 'F' := by
  refine ⟨?_, ?_⟩
  · intro table strategy h
    refine ⟨?_, fun u v hperm n source bound => deriveFrom_looking_perm table h hperm n source bound⟩
    intro initiator n source
    refine ⟨fun htext => ⟨_, htext.outcome_looking h initiator n source⟩, ?_⟩
    intro w w' hw hw'
    obtain ⟨-, rfl⟩ := (RuleTable.outcome_looking_eq_ok_iff h ..).mp hw
    obtain ⟨-, rfl⟩ := (RuleTable.outcome_looking_eq_ok_iff h ..).mp hw'
    rw [Function.iterate_succ_apply']
    refine ⟨fun c => table.count_image _ c, (table.growth_counts _).symm, ?_⟩
    exact (table.iterate_growth_counts n initiator).symm
  · intro s h color start source picture hpicture
    obtain ⟨w, hbuild, hsize⟩ := LSystem.size_segments_render hpicture
    rw [LSystem.build_eq_deriveFrom] at hbuild
    obtain ⟨-, rfl⟩ := (RuleTable.outcome_looking_eq_ok_iff h ..).mp hbuild
    rw [hsize, s.table.iterate_growth_counts, counts_apply]

/-- With a rule that erases: an axiom in both orders exceeds the bound in the second pass, although
    one of them starts with the symbol that is erased.  The picture of a system has the segments
    that the counts of its axiom say. -/
theorem symbol_counts_grow_linearly_erasing :
    ∃ table : RuleTable Word, RuleTable.parse "F=FXF X=".toList = .ok table ∧ table.Textual ∧
      Strategy.deterministic ≠ .stochastic ∧ ['F', 'X'].Perm ['X', 'F'] ∧
      (∃ w w' : Word,
        (deriveFrom .deterministic ['F', 'X'] table (.int (1 : Nat)) (.seed 0) none).outcome = .ok w ∧
        (deriveFrom .deterministic ['F', 'X'] table (.int (1 + 1 : Nat)) (.seed 0) none).outcome =
          .ok w' ∧
        counts w' = table.growth (counts w) ∧ counts w = table.growth^[1] (counts ['F', 'X'])) ∧
      (deriveFrom .deterministic ['X', 'F'] table (.int (2 : Nat)) (.seed 0) (some 5)).lengths =
        #[3] ∧
      (deriveFrom .deterministic ['X', 'F'] table (.int (2 : Nat)) (.seed 0) (some 5)).outcome =
        .error (.expansionLimit 2 5) ∧
      ∃ (s : LSystem) (picture : Picture),
        LSystem.ofValues (.text "deterministic".toList) (.text ['F', 'X'])
          (.value (.text "F=FXF X=".toList)) (.int 90) (.int 2) (.int 10) none = .ok s ∧
        (s.render .default (.value .null) (.seed 0)).outcome = .ok picture ∧
        picture.segments.size = (table.growth^[2] (counts ['F', 'X'])) 'F' := by
  have hstrategy : Strategy.deterministic ≠ .stochastic := fun h => nomatch h
  have hperm : ['F', 'X'].Perm ['X', 'F'] := List.Perm.swap 'X' 'F' []
  obtain ⟨table, htable, hparse⟩ : ∃ table : RuleTable Word,
      table = RuleTable.ofRules [⟨['F'], ['F', 'X', 'F']⟩, ⟨['X'], []⟩] ∧
        RuleTable.parse "F=FXF X=".toList = .ok table := ⟨_, rfl, rfl⟩
  have htext := RuleTable.textual_of_words table
  obtain ⟨hderive, hrender⟩ := symbol_counts_grow_linearly (α := Word)
  obtain ⟨hlinear, horder⟩ := hderive table .deterministic hstrategy
  have hwords : ∃ w w' : Word,
      (deriveFrom .deterministic ['F', 'X'] table (.int (1 : Nat)) (.seed 0) none).outcome = .ok w ∧
      (deriveFrom .deterministic ['F', 'X'] table (.int (1 + 1 : Nat)) (.seed 0) none).outcome =
        .ok w' := by
    subst htable
    exact ⟨_, _, rfl, rfl⟩
  obtain ⟨w, w', hw, hw'⟩ := hwords
  have hcounts := (hlinear ['F', 'X'] 1 (.seed 0)).2 w w' hw hw'
  obtain ⟨hlengths, houtcome⟩ := horder _ _ hperm 2 (.seed 0) (some 5)
  have hfirst : deriveFrom .deterministic ['F', 'X'] table (.int (2 : Nat)) (.seed 0) (some 5) =
      ⟨.error (.expansionLimit 2 5), #[3], .seed 0⟩ := by
    subst htable
    rfl
  rw [hfirst] at hlengths houtcome
  have hsecond : (deriveFrom .deterministic ['X', 'F'] table (.int (2 : Nat)) (.seed 0)
      (some 5)).outcome = .error (.expansionLimit 2 5) := by
    rcases houtcome with ⟨u', v', -, hu, -⟩ | ⟨cause, cause', hu, hv, hnames⟩
    · nomatch hu
    · rw [hv, (hnames htext).1, ← hu]
  obtain ⟨s, hs, hmake⟩ : ∃ s : LSystem, s = ⟨.deterministic,
      ⟨['F', 'X'], .value (.text "F=FXF X=".toList), (Number.int 90).toFloat, 2, .int 10⟩, table, none⟩ ∧
        LSystem.ofValues (.text "deterministic".toList) (.text ['F', 'X'])
          (.value (.text "F=FXF X=".toList)) (.int 90) (.int 2) (.int 10) none = .ok s := by
    subst htable
    exact ⟨_, rfl, rfl⟩
  have hbuild : (s.build (.seed 0)).outcome = .ok ['F', 'X', 'F', 'F', 'X', 'F'] := by
    subst htable hs
    rfl
  have hpicture : ∃ picture, (s.render .default (.value .null) (.seed 0)).outcome = .ok picture := by
    have hchecked : Descriptor.ofValues (.text ['F', 'X']) (.value (.text "F=FXF X=".toList)) (.int 90)
        (.int 2) (.int 10) = .ok s.descriptor := by
      subst hs
      rfl
    obtain ⟨-, hangle, -, hfinite, hpositive⟩ := Descriptor.ofValues_ok hchecked
    have hnarrow : s.descriptor.step.isWide = false := by
      subst hs
      rfl
    exact LSystem.exists_picture hangle hfinite hpositive hnarrow hbuild rfl .absent .default
  obtain ⟨picture, hpicture⟩ := hpicture
  have hlooks : s.strategy ≠ .stochastic := by
    rw [hs]
    exact hstrategy
  have hsize := hrender s hlooks .default (.value .null) (.seed 0) picture hpicture
  have hparts : s.table = table ∧ s.descriptor.iterations = 2 ∧ s.descriptor.initiator = ['F', 'X'] := by
    rw [hs]
    exact ⟨rfl, rfl, rfl⟩
  rw [hparts.1, hparts.2.1, hparts.2.2] at hsize
  exact ⟨table, hparse, htext, hstrategy, hperm, ⟨w, w', hw, hw', hcounts.2⟩, hlengths.symm,
    hsecond, s, picture, hmake, hpicture, hsize⟩

end Lindenmayer
