/-
  The choices that a stochastic derivation asks for, in order and number.

  A script keeps the number of candidates of every choice it was asked for, and that list is also
  its place in the stream.  A symbol costs a choice if it has two candidates or more, so a word asks
  for the CHOICES of its symbols, from left to right (`expand_script`), and a derivation for those
  of the words that its passes read, one pass after the other (`stage_script`).  A pass that fails
  has asked for the choices of the symbols up to the one at which the bound was exceeded, that one
  included, and for none behind it.
-/
import Lindenmayer.Proofs.Derivation.Stages

namespace Lindenmayer

/-! ## Scripts that were asked -/

namespace Random.Script

/-- The script after further choices, among so many candidates each. -/
def after (s : Script) (counts : List Nat) : Script :=
  { s with asked := s.asked ++ counts.toArray }

@[simp] theorem after_nil (s : Script) : s.after [] = s := by
  unfold after
  rw [Array.append_empty]

@[simp] theorem after_after (s : Script) (counts more : List Nat) :
    (s.after counts).after more = s.after (counts ++ more) := by
  show (⟨s.draws, s.asked ++ counts.toArray ++ more.toArray⟩ : Script) =
    ⟨s.draws, s.asked ++ (counts ++ more).toArray⟩
  rw [Array.append_assoc, List.append_toArray counts more]

end Random.Script

/-! ## The choices of a word -/

section

variable {α : Type} [BEq α] [RulePart α]

/-- The numbers of candidates of the symbols of a word, where there are two or more. -/
def RuleTable.choices (t : RuleTable α) (w : Word) : List Nat :=
  (w.map fun c => (t.productions (RulePart.ofWord [c])).length).filter (2 ≤ ·)

theorem RuleTable.choices_cons (t : RuleTable α) (c : Symbol) (w : Word) :
    t.choices (c :: w) = t.choices [c] ++ t.choices w := by
  unfold choices
  rw [← List.filter_append]
  rfl

/-- A symbol with two candidates or more costs a choice among them. -/
theorem RuleTable.choices_of_many {t : RuleTable α} {c : Symbol}
    (h : 1 < (t.candidates (RulePart.ofWord [c])).size) :
    t.choices [c] = [(t.candidates (RulePart.ofWord [c])).size] := by
  show List.filter (2 ≤ ·) [(t.candidates (RulePart.ofWord [c])).toList.length] = _
  rw [Array.length_toList]
  exact List.filter_cons_of_pos (decide_eq_true h)

/-- A symbol with one candidate or none costs no choice. -/
theorem RuleTable.choices_of_few {t : RuleTable α} {c : Symbol}
    (h : ¬ 1 < (t.candidates (RulePart.ofWord [c])).size) : t.choices [c] = [] := by
  show List.filter (2 ≤ ·) [(t.candidates (RulePart.ofWord [c])).toList.length] = _
  rw [Array.length_toList]
  exact List.filter_cons_of_neg fun hk => h (of_decide_eq_true hk)

/-- What a draw for a symbol leaves of a script. -/
theorem RuleTable.pick_script (t : RuleTable α) (c : Symbol) (s : Random.Script) :
    (t.pick (RulePart.ofWord [c]) (Generator.script s)).2 = .script (s.after (t.choices [c])) := by
  unfold RuleTable.pick
  by_cases h : 1 < (t.candidates (RulePart.ofWord [c])).size
  · rw [dif_pos h, t.choices_of_many h]
    rfl
  · rw [dif_neg h, t.choices_of_few h, s.after_nil]

/-- **The choices of a word** are asked for from left to right, and no others. -/
theorem expand_script (t : RuleTable α) (w : Word) (s : Random.Script) :
    (expand t.picking w (Generator.script s)).2 = .script (s.after (t.choices w)) := by
  induction w generalizing s with
  | nil => exact congrArg Generator.script s.after_nil.symm
  | cons c w ih =>
    show (expand t.picking w (t.pick (RulePart.ofWord [c]) (Generator.script s)).2).2 = _
    rw [t.pick_script, ih, Random.Script.after_after, ← t.choices_cons]

/-- **The choices of a derivation** are those of the words it reads, in the order of its passes. -/
theorem stage_script (t : RuleTable α) (w : Word) (s : Random.Script) (i : Nat) :
    (stage t.picking w (Generator.script s) i).2 =
      .script (s.after ((List.range i).flatMap fun j =>
        t.choices (stage t.picking w (Generator.script s) j).1)) := by
  induction i with
  | zero => exact congrArg Generator.script s.after_nil.symm
  | succ i ih =>
    show (expand t.picking (stage t.picking w (Generator.script s) i).1
      (stage t.picking w (Generator.script s) i).2).2 = _
    rw [ih, expand_script, Random.Script.after_after, List.range_succ, List.flatMap_append,
      List.flatMap_singleton]

/-- A stochastic derivation from a generator is a run that draws from it. -/
theorem deriveFrom_generator (table : RuleTable α) (initiator : Word) (n : Nat) (g : Generator)
    (bound : Option Int) :
    deriveFrom .stochastic initiator table (.int n) (.generator g) bound =
      (run table.picking bound n (Text.strip initiator) g).mapState .generator :=
  deriveFrom_stochastic table initiator rfl n bound

variable [LawfulRulePart α]

/-- **What a stochastic derivation asks of a script, and where it leaves it.**  If the iterations
    are refused, nothing is asked.  If all passes are finished, the choices of the words they read
    are asked for, in order.  If a pass exceeds the bound, the choices of the words before are, and
    then those of the shortest prefix of its own word whose replacements are longer than the
    bound. -/
theorem deriveFrom_asks {table : RuleTable α} (htext : table.Textual) (initiator : Word)
    (bound : Option Int) (script : Random.Script) :
    (∀ iterations cause, passCount iterations = .error cause →
      (deriveFrom .stochastic initiator table iterations (.generator (.script script))
        bound).state = .generator (.script script)) ∧
    ∀ n : Nat,
      (∃ s : Nat → Word, s 0 = Text.strip initiator ∧
        (∀ i : Nat, i ≤ n → (deriveFrom .stochastic initiator table (.int i)
          (.generator (.script script)) bound).outcome = .ok (s i)) ∧
        (deriveFrom .stochastic initiator table (.int n) (.generator (.script script))
          bound).state = .generator (.script (script.after
            ((List.range n).flatMap fun j => table.choices (s j))))) ∨
      ∃ (s : Nat → Word) (k : Nat) (m : Int) (g : Generator) (u : Word),
        s 0 = Text.strip initiator ∧ k < n ∧ bound = some m ∧
        (∀ i : Nat, i ≤ k → (deriveFrom .stochastic initiator table (.int i)
          (.generator (.script script)) bound).outcome = .ok (s i)) ∧
        (deriveFrom .stochastic initiator table (.int k) (.generator (.script script))
          bound).state = .generator g ∧
        ShortestPrefix (TooLong table.picking m g) (s k) u ∧
        (deriveFrom .stochastic initiator table (.int n) (.generator (.script script))
          bound).outcome = .error (.expansionLimit (k + 1) m) ∧
        (deriveFrom .stochastic initiator table (.int n) (.generator (.script script))
          bound).state = .generator (.script (script.after
            (((List.range k).flatMap fun j => table.choices (s j)) ++ table.choices u))) := by
  have hpick : (table.picking : Replacement Generator α).Textual := htext.picking
  refine ⟨fun iterations cause hcause => ?_, fun n => ?_⟩
  · unfold deriveFrom
    rw [hcause]
    rfl
  · rcases run_cases hpick bound n (Text.strip initiator) (Generator.script script) with
      ⟨hfits, hrun⟩ | ⟨k, m, u, hlt, hbound, hfits, hu, hrun⟩
    · -- every pass gets through
      refine Or.inl ⟨fun i => (stage table.picking (Text.strip initiator) (Generator.script script) i).1,
        rfl, fun i hi => ?_, ?_⟩
      · rw [deriveFrom_generator, run_of_fits hpick fun j hj => hfits j (Nat.lt_of_lt_of_le hj hi)]
        rfl
      · rw [deriveFrom_generator, hrun]
        exact congrArg Source.generator (stage_script table _ script n)
    · -- pass `k + 1` fails, and those before it get through
      have hbefore : ∀ i : Nat, i ≤ k → run table.picking bound i (Text.strip initiator)
          (Generator.script script) = _ :=
        fun i hi => run_of_fits hpick fun j hj => hfits j (Nat.lt_of_lt_of_le hj hi)
      refine Or.inr ⟨fun i => (stage table.picking (Text.strip initiator) (Generator.script script) i).1,
        k, m, (stage table.picking (Text.strip initiator) (Generator.script script) k).2, u, rfl, hlt,
        hbound, fun i hi => ?_, ?_, hu, ?_, ?_⟩
      · rw [deriveFrom_generator, hbefore i hi]
        rfl
      · rw [deriveFrom_generator, hbefore k (Nat.le_refl k)]
        rfl
      · rw [deriveFrom_generator, hrun]
        rfl
      · rw [deriveFrom_generator, hrun]
        refine congrArg Source.generator ?_
        show (expand table.picking u (stage table.picking _ (Generator.script script) k).2).2 = _
        rw [stage_script, expand_script, Random.Script.after_after]

end

/-- Two symbols with a choice and one without come before the bound is exceeded, and the last symbol
    is not asked for. -/
theorem deriveFrom_asks_mid_pass :
    (RuleTable.ofRules [⟨['F'], ['F', 'F']⟩, ⟨['F'], ['F']⟩] : RuleTable Word).Textual ∧
    ∃ u, ShortestPrefix (TooLong (RuleTable.ofRules [⟨['F'], ['F', 'F']⟩, ⟨['F'], ['F']⟩] :
          RuleTable Word).picking 3 (Generator.script ⟨#[0], #[5]⟩)) ['F', 'X', 'F', 'F'] u ∧
      (deriveFrom .stochastic ['F', ' ', 'X', 'F', 'F'] (RuleTable.ofRules
          [⟨['F'], ['F', 'F']⟩, ⟨['F'], ['F']⟩] : RuleTable Word) (.int 2)
        (.generator (.script ⟨#[0], #[5]⟩)) (some 3)).state =
        .generator (.script (Random.Script.after ⟨#[0], #[5]⟩ ((RuleTable.ofRules
          [⟨['F'], ['F', 'F']⟩, ⟨['F'], ['F']⟩] : RuleTable Word).choices u))) := by
  have htext := RuleTable.textual_of_words
    (RuleTable.ofRules [⟨['F'], ['F', 'F']⟩, ⟨['F'], ['F']⟩])
  refine ⟨htext, ?_⟩
  rcases (deriveFrom_asks htext ['F', ' ', 'X', 'F', 'F'] (some 3) ⟨#[0], #[5]⟩).2 2 with
    ⟨s, -, hs, -⟩ | ⟨s, k, m, g, u, h0, -, hm, -, hg, hu, hout, hstate⟩
  · have hfail : (Except.error (.expansionLimit 1 3) : Except Error Word) = .ok (s 2) :=
      hs 2 (Nat.le_refl 2)
    nomatch hfail
  · have hfail : (Except.error (.expansionLimit 1 3) : Except Error Word) =
        .error (.expansionLimit (k + 1) m) := hout
    injection hfail with hfail
    injection hfail with hk
    obtain rfl : k = 0 := by omega
    obtain rfl := Option.some.inj hm
    obtain rfl : Generator.script ⟨#[0], #[5]⟩ = g := Source.generator.inj hg
    rw [h0] at hu
    exact ⟨u, hu, hstate⟩

end Lindenmayer
