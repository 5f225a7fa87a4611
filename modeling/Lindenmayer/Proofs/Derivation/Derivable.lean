/-
  What a stochastic derivation can give: exactly the derivations of its table.

  A table REWRITES a word by replacing every symbol, from left to right, by one of its productions,
  or by nothing if it has none; a DERIVATION is a sequence of words of which each is rewritten to
  the next.  Nothing in this mentions choices.  Whatever chooser a stochastic run draws from, the
  words it goes through are a derivation; and every derivation is the run of some script.

  The second half has to write the script.  For one symbol that is the place of the production among
  the candidates, or nothing where there is no choice; the scripts of symbols and of passes are put
  one behind the other.  `Upcoming` says that a script comes to such draws next, and the numbers of
  choices that `expand_script` and `stage_script` count tell where each part ends.
-/
import Mathlib.Data.List.Basic
import Lindenmayer.Proofs.Derivation.Choices

namespace Lindenmayer

/-! ## Derivations -/

namespace RuleTable

variable {α : Type} [BEq α] [RulePart α]

/-- What a symbol may be replaced by: one of its productions, or nothing if it has none. -/
inductive Replaces (t : RuleTable α) (c : Symbol) : Word → Prop where
  | production {part : α} {v : Word} (hmem : part ∈ t.productions (RulePart.ofWord [c]))
      (hword : RulePart.Is part v) : Replaces t c v
  | nothing (hnone : t.productions (RulePart.ofWord [c]) = []) : Replaces t c []

/-- Every symbol of a word is replaced, and what replaces them is put together in their order. -/
inductive Rewrites (t : RuleTable α) : Word → Word → Prop where
  | nil : Rewrites t [] []
  | cons {c : Symbol} {v w w' : Word} (hfirst : t.Replaces c v) (hrest : t.Rewrites w w') :
      Rewrites t (c :: w) (v ++ w')

/-- The words from `0` to `n`: the first is the axiom without its blanks, and each is rewritten to
    the next. -/
structure Derivation (t : RuleTable α) (initiator : Word) (n : Nat) (s : Nat → Word) : Prop where
  first : s 0 = Text.strip initiator
  step : ∀ i, i < n → t.Rewrites (s i) (s (i + 1))

end RuleTable

variable {α : Type} [BEq α] [RulePart α] [LawfulRulePart α]

/-! ## Every run is a derivation -/

theorem RuleTable.Textual.replaces_pick {σ : Type} [Chooser σ] {t : RuleTable α} (h : t.Textual)
    (c : Symbol) (g : σ) :
    t.Replaces c (RulePart.toWord (t.pick (RulePart.ofWord [c]) g).1) := by
  rcases t.pick_cases (RulePart.ofWord [c]) g with hmem | ⟨hnone, hpick⟩
  · obtain ⟨v, hv⟩ := h.candidate (Array.mem_toList_iff.mp hmem)
    rw [hv.toWord_eq]
    exact .production hmem hv
  · rw [hpick, RulePart.toWord_ofWord]
    exact .nothing hnone

/-- One pass rewrites its word. -/
theorem RuleTable.Textual.rewrites_expand {σ : Type} [Chooser σ] {t : RuleTable α} (h : t.Textual)
    (w : Word) (g : σ) : t.Rewrites w (expand t.picking w g).1 := by
  induction w generalizing g with
  | nil => exact .nil
  | cons c w ih => exact .cons (h.replaces_pick c g) (ih _)

/-- **Soundness of the stages**: they are a derivation, whatever they are drawn from. -/
theorem RuleTable.Textual.derivation_stage {σ : Type} [Chooser σ] {t : RuleTable α} (h : t.Textual)
    (initiator : Word) (n : Nat) (g : σ) :
    t.Derivation initiator n fun i => (stage t.picking (Text.strip initiator) g i).1 :=
  ⟨rfl, fun _ _ => h.rewrites_expand _ _⟩

/-! ## Scripts that come to given draws -/

namespace Random.Script

/-- The next draws of the script are these. -/
def Upcoming (s : Script) (draws : List Int) : Prop :=
  draws <+: s.draws.toList.drop s.asked.size

theorem upcoming_self (draws : List Int) : Upcoming ⟨draws.toArray, #[]⟩ draws :=
  List.prefix_refl draws

theorem Upcoming.left {s : Script} {draws more : List Int} (h : s.Upcoming (draws ++ more)) :
    s.Upcoming draws :=
  (List.prefix_append draws more).trans h

/-- After as many choices as there are draws, what comes behind them comes next. -/
theorem Upcoming.after {s : Script} {draws more : List Int} (h : s.Upcoming (draws ++ more))
    {counts : List Nat} (hlen : draws.length = counts.length) : (s.after counts).Upcoming more := by
  obtain ⟨rest, hrest⟩ := h
  have hsize : (s.after counts).asked.size = s.asked.size + draws.length := by
    rw [hlen, ← List.size_toArray]
    exact Array.size_append
  refine ⟨rest, ?_⟩
  show more ++ rest = s.draws.toList.drop (s.after counts).asked.size
  rw [hsize, ← List.drop_drop, ← hrest, List.append_assoc, List.drop_left]

/-- The next draw is the first of those that come next. -/
theorem Upcoming.draw_eq {s : Script} {d : Int} {draws : List Int} (h : s.Upcoming (d :: draws)) :
    s.draw = d := by
  obtain ⟨rest, hrest⟩ := h
  have hget : s.draws.toList[s.asked.size]? = some d := by
    have hhead : (s.draws.toList.drop s.asked.size)[0]? = some d := by rw [← hrest]; rfl
    rw [List.getElem?_drop] at hhead
    exact hhead
  have hlt : s.asked.size < s.draws.size := by
    rw [← Array.length_toList]
    exact (List.getElem?_eq_some_iff.mp hget).1
  rw [draw, Nat.mod_eq_of_lt hlt, Array.getD_eq_getD_getElem?, ← Array.getElem?_toList, hget]
  rfl

end Random.Script

/-! ## Every derivation is a run -/

/-- **One symbol**: there are draws, as many as it asks for, that make it the given word.  Only with
    two candidates or more is there a draw, the place of the production among them. -/
theorem exists_draws_of_replaces {t : RuleTable α} {c : Symbol} {v : Word} (h : t.Replaces c v) :
    ∃ draws : List Int, draws.length = (t.choices [c]).length ∧
      ∀ s : Random.Script, s.Upcoming draws →
        RulePart.toWord (t.pick (RulePart.ofWord [c]) (Generator.script s)).1 = v := by
  cases h with
  | nothing hnone =>
    have hpick : ∀ s : Random.Script,
        (t.pick (RulePart.ofWord [c]) (Generator.script s)).1 = RulePart.ofWord [] := by
      intro s
      rcases t.pick_cases (RulePart.ofWord [c]) (Generator.script s) with hmem | ⟨-, hpick⟩
      · exact absurd (hnone ▸ hmem) List.not_mem_nil
      · exact hpick
    refine ⟨[], ?_, fun s _ => ?_⟩
    · rw [RuleTable.choices, List.map_singleton, hnone]
      rfl
    · rw [hpick s]
      exact RulePart.toWord_ofWord []
  | production hmem hword =>
    obtain ⟨i, hi, rfl⟩ := Array.mem_iff_getElem.mp (Array.mem_toList_iff.mp hmem)
    by_cases hmany : 1 < (t.candidates (RulePart.ofWord [c])).size
    · -- the draw is the place of the production
      refine ⟨[(i : Int)], by rw [RuleTable.choices_of_many hmany]; rfl, fun s hs => ?_⟩
      have hpick : (t.pick (RulePart.ofWord [c]) (Generator.script s)).1 =
          (t.candidates (RulePart.ofWord [c]))[i] := by
        unfold RuleTable.pick
        rw [dif_pos hmany]
        have hindex : (Random.Script.index s.draw _ (Nat.zero_lt_of_lt hmany) : Nat) = i := by
          rw [hs.draw_eq, Random.Script.val_index_natCast, Nat.mod_eq_of_lt hi]
        show (t.candidates (RulePart.ofWord [c]))[(Random.Script.index s.draw _
          (Nat.zero_lt_of_lt hmany)).val] = _
        exact getElem_congr_idx hindex
      rw [hpick, hword.toWord_eq]
    · -- the production is the only candidate
      refine ⟨[], by rw [RuleTable.choices_of_few hmany]; rfl, fun s _ => ?_⟩
      obtain rfl : i = 0 := by omega
      have hpick : (t.pick (RulePart.ofWord [c]) (Generator.script s)).1 =
          (t.candidates (RulePart.ofWord [c]))[0] := by
        unfold RuleTable.pick
        rw [dif_neg hmany, Array.getD, dif_pos hi]
        rfl
      rw [hpick, hword.toWord_eq]

/-- **One pass**: the draws of its symbols, from left to right. -/
theorem exists_draws_of_rewrites {t : RuleTable α} {w v : Word} (h : t.Rewrites w v) :
    ∃ draws : List Int, draws.length = (t.choices w).length ∧
      ∀ s : Random.Script, s.Upcoming draws →
        (expand t.picking w (Generator.script s)).1 = v := by
  induction h with
  | nil => exact ⟨[], rfl, fun _ _ => rfl⟩
  | @cons c v w w' hfirst _ ih =>
    obtain ⟨first, hfirstlen, hpick⟩ := exists_draws_of_replaces hfirst
    obtain ⟨rest, hrestlen, hexpand⟩ := ih
    refine ⟨first ++ rest, ?_, fun s hs => ?_⟩
    · rw [t.choices_cons, List.length_append, List.length_append, hfirstlen, hrestlen]
    · show RulePart.toWord (t.pick (RulePart.ofWord [c]) (Generator.script s)).1 ++
        (expand t.picking w (t.pick (RulePart.ofWord [c]) (Generator.script s)).2).1 = v ++ w'
      rw [hpick s hs.left, t.pick_script, hexpand _ (hs.after hfirstlen)]

/-- **All passes**: the draws of the first, then those of the second, and so on.  Induction on the
    number of passes; the words before the last are the same for the longer script, since all that
    is asked of it is that it comes to the shorter one first. -/
theorem exists_draws_of_derivation {t : RuleTable α} {initiator : Word} {n : Nat}
    {s : Nat → Word} (h : t.Derivation initiator n s) :
    ∃ draws : List Int,
      draws.length = ((List.range n).flatMap fun j => t.choices (s j)).length ∧
      ∀ script : Random.Script, script.Upcoming draws → ∀ i, i ≤ n →
        (stage t.picking (Text.strip initiator) (Generator.script script) i).1 = s i := by
  induction n with
  | zero =>
    refine ⟨[], rfl, fun script _ i hi => ?_⟩
    obtain rfl := Nat.le_zero.mp hi
    exact h.first.symm
  | succ n ih =>
    obtain ⟨before, hbeforelen, hbefore⟩ := ih ⟨h.first, fun i hi => h.step i (Nat.lt_succ_of_lt hi)⟩
    obtain ⟨last, hlastlen, hlast⟩ := exists_draws_of_rewrites (h.step n (Nat.lt_succ_self n))
    refine ⟨before ++ last, ?_, fun script hscript i hi => ?_⟩
    · rw [List.range_succ, List.flatMap_append, List.flatMap_singleton, List.length_append,
        List.length_append, hbeforelen, hlastlen]
    · rcases Nat.lt_or_eq_of_le hi with hlt | rfl
      · exact hbefore script hscript.left i (Nat.le_of_lt_succ hlt)
      · -- the words before are those of the derivation, so the script stands where `last` begins
        have hwords := hbefore script hscript.left
        have hasked : ((List.range n).flatMap fun j => t.choices
            (stage t.picking (Text.strip initiator) (Generator.script script) j).1) =
            (List.range n).flatMap fun j => t.choices (s j) :=
          List.flatMap_congr fun j hj => by
            rw [hwords j (Nat.le_of_lt (List.mem_range.mp hj))]
        show (expand t.picking (stage t.picking _ (Generator.script script) n).1
          (stage t.picking _ (Generator.script script) n).2).1 = s (n + 1)
        rw [hwords n (Nat.le_refl n), stage_script, hasked]
        exact hlast _ (hscript.after hbeforelen)

/-! ## The derivations of a table -/

/-- **Stochastic runs are exactly the derivations of their table.**  Whatever chooser a run without a
    bound draws from, it goes through a derivation, ends with its last word and keeps its lengths;
    and for every derivation there is a script with which the run goes through its words. -/
theorem stochastic_derivations {table : RuleTable α} (htext : table.Textual) (initiator : Word)
    (n : Nat) :
    (∀ (σ : Type) [Chooser σ] (g : σ), ∃ s, table.Derivation initiator n s ∧
      (∀ i, i ≤ n → (stochastic table none i initiator g).outcome = .ok (s i)) ∧
      (stochastic table none n initiator g).lengths.toList =
        (List.range n).map fun i => (s (i + 1)).length) ∧
    ∀ s, table.Derivation initiator n s → ∃ draws : List Int,
      ∀ i : Nat, i ≤ n → (deriveFrom .stochastic initiator table (.int i)
        (.generator (.script ⟨draws.toArray, #[]⟩)) none).outcome = .ok (s i) := by
  have hrun : ∀ (σ : Type) [Chooser σ] (g : σ) (i : Nat), stochastic table none i initiator g =
      ⟨.ok (stage table.picking (Text.strip initiator) g i).1,
        stageLengths table.picking (Text.strip initiator) g i,
        (stage table.picking (Text.strip initiator) g i).2⟩ :=
    fun _ _ g i => run_unbounded htext.picking i (Text.strip initiator) g
  refine ⟨fun σ _ g => ?_, fun s hs => ?_⟩
  · refine ⟨_, htext.derivation_stage initiator n g, fun i _ => ?_, ?_⟩
    · rw [hrun σ g i]
    · rw [hrun σ g n]
      exact List.toList_toArray
  · obtain ⟨draws, -, hdraws⟩ := exists_draws_of_derivation hs
    refine ⟨draws, fun i hi => ?_⟩
    rw [deriveFrom_generator, run_unbounded htext.picking]
    exact congrArg Except.ok (hdraws _ (Random.Script.upcoming_self draws) i hi)

/-- A derivation that takes the one production for some symbols and the other for others. -/
theorem stochastic_derivations_mixed :
    (RuleTable.ofRules [⟨['F'], ['F', 'F']⟩, ⟨['F'], ['F']⟩] : RuleTable Word).Textual ∧
    ∃ draws : List Int, (deriveFrom .stochastic [' ', 'F', 'X'] (RuleTable.ofRules
        [⟨['F'], ['F', 'F']⟩, ⟨['F'], ['F']⟩] : RuleTable Word) (.int 2)
      (.generator (.script ⟨draws.toArray, #[]⟩)) none).outcome = .ok ['F', 'F', 'F'] := by
  have htext := RuleTable.textual_of_words
    (RuleTable.ofRules [⟨['F'], ['F', 'F']⟩, ⟨['F'], ['F']⟩])
  have hone : RuleTable.Replaces (RuleTable.ofRules [⟨['F'], ['F', 'F']⟩, ⟨['F'], ['F']⟩]) 'F' ['F'] :=
    .production (show ['F'] ∈ RuleTable.productions _ _ by decide) rfl
  have htwo : RuleTable.Replaces (RuleTable.ofRules [⟨['F'], ['F', 'F']⟩, ⟨['F'], ['F']⟩]) 'F'
      ['F', 'F'] := .production (show ['F', 'F'] ∈ RuleTable.productions _ _ by decide) rfl
  have hgone : RuleTable.Replaces (RuleTable.ofRules [⟨['F'], ['F', 'F']⟩, ⟨['F'], ['F']⟩]) 'X' [] :=
    .nothing rfl
  have hderivation : RuleTable.Derivation (RuleTable.ofRules [⟨['F'], ['F', 'F']⟩, ⟨['F'], ['F']⟩])
      [' ', 'F', 'X'] 2 fun
        | 0 => ['F', 'X']
        | 1 => ['F', 'F']
        | _ => ['F', 'F', 'F'] := by
    refine ⟨rfl, fun i hi => ?_⟩
    match i, hi with
    | 0, _ => exact .cons htwo (.cons hgone .nil)
    | 1, _ => exact .cons htwo (.cons hone .nil)
  obtain ⟨draws, hdraws⟩ := (stochastic_derivations htext [' ', 'F', 'X'] 2).2 _ hderivation
  exact ⟨htext, draws, hdraws 2 (Nat.le_refl 2)⟩

end Lindenmayer
