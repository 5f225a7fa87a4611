/-
  The weights of productions.

  Where there is something to choose, a production is drawn with the first word of the generator that
  is accepted, and is the candidate whose index the word stands for.  So the words that give a
  production can be counted: every candidate has the same number of them, and the candidates of a key
  are the productions of its rules, in order and with duplicates.  A production weighs as much as it has
  rules, exactly.
-/
import Lindenmayer.Proofs.Random.Rejection
import Lindenmayer.Proofs.RuleTable.Keys
import Lindenmayer.Rules

namespace Lindenmayer

open Lindenmayer.Random (Accepted Permuted wordCount)

namespace RuleTable

variable {α : Type} [BEq α]

/-- A production stands among the candidates of a key as often as it stands in a rule of that key. -/
theorem countP_productions (t : RuleTable α) {key : α} (hkey : IsSharp key) (p : α)
    [DecidablePred fun q => q = p] [DecidablePred fun r : Rule α => r.key = key ∧ r.production = p] :
    (t.productions key).countP (fun q => q = p) =
      t.rules.countP (fun r => r.key = key ∧ r.production = p) := by
  rw [t.productions_eq hkey, List.countP_map, List.countP_filter]
  refine List.countP_congr fun r _ => ?_
  simp only [Function.comp_apply, Bool.and_eq_true, decide_eq_true_eq, hkey.beq_iff]
  exact and_comm

variable [RulePart α] {t : RuleTable α} {key p : α} {k : ℕ} {g g' : Permuted} {w : UInt32}

/-- The production is drawn for the key by a generator that takes the word. -/
def Gives (t : RuleTable α) (key : α) (w : UInt32) (p : α) : Prop :=
  ∃ g g', Odd g.increment ∧ Permuted.Takes (t.productions key).length g w g' ∧
    t.pickFrom key (.generator (.permuted g)) = .ok (p, .generator (.permuted g'))

/-- Where there is something to choose, the candidate at the chosen index is drawn. -/
theorem pick_of_choose {σ : Type} [Chooser σ] {s s' : σ} {i : Fin (t.candidates key).size}
    (hmany : 1 < (t.candidates key).size)
    (hchoose : Chooser.choose s (t.candidates key).size (Nat.zero_lt_of_lt hmany) = (i, s'))
    (hp : (t.candidates key)[i.val]? = some p) : t.pick key s = (p, s') := by
  obtain ⟨_, hget⟩ := Array.getElem?_eq_some_iff.mp hp
  unfold pick
  rw [dif_pos hmany, hchoose]
  exact congrArg (·, s') hget

/-- **What is drawn** is the candidate at the index that the taken word stands for. -/
theorem pickFrom_of_takes (hk : (t.productions key).length = k) (htwo : 2 ≤ k) (hle : k ≤ wordCount)
    (hodd : Odd g.increment) (h : Permuted.Takes k g w g')
    (hp : (t.productions key)[Random.index k w]? = some p) :
    t.pickFrom key (.generator (.permuted g)) = .ok (p, .generator (.permuted g')) := by
  have hpos : 0 < k := Nat.zero_lt_of_lt htwo
  have hsize : (t.candidates key).size = k := hk
  have hmany : 1 < (t.candidates key).size := hsize ▸ htwo
  have hchoose : Chooser.choose (Generator.permuted g) (t.candidates key).size
      (Nat.zero_lt_of_lt hmany) =
        (⟨Random.index k w, hsize ▸ Random.index_lt hpos w⟩, .permuted g') := by
    subst hsize
    exact congrArg (Prod.map id Generator.permuted) (h.choose_eq hpos hle hodd)
  have hcandidate : (t.candidates key)[Random.index k w]? = some p := by
    rw [← Array.getElem?_toList]
    exact hp
  simp only [pickFrom, pick_of_choose hmany hchoose hcandidate]

/-- The words that give a production are the accepted ones that stand for the index of such a
    candidate. -/
theorem gives_iff (hk : (t.productions key).length = k) (htwo : 2 ≤ k) (hle : k ≤ wordCount) :
    t.Gives key w p ↔ Accepted k w ∧ (t.productions key)[Random.index k w]? = some p := by
  subst hk
  constructor
  · rintro ⟨g, g', hodd, htakes, hdrawn⟩
    have hlt := Random.index_lt (Nat.zero_lt_of_lt htwo) w
    have hcandidate := pickFrom_of_takes rfl htwo hle hodd htakes (List.getElem?_eq_getElem hlt)
    refine ⟨htakes.accepted, ?_⟩
    rw [List.getElem?_eq_getElem hlt]
    simpa [hdrawn] using hcandidate.symm
  · rintro ⟨hacc, hp⟩
    have htakes := Permuted.takes_waiting (g := ⟨0, 1, some w⟩) hacc rfl
    exact ⟨_, _, odd_one, htakes, pickFrom_of_takes rfl htwo hle odd_one htakes hp⟩

end RuleTable

/-! ## The weights -/

/-- **Productions are drawn by weight.**  Let a word have `k` candidates, two at least and fewer than
    there are words to draw from.  Every generator comes to a word that it takes, and keeps an odd
    increment.  Whatever the word, its index is that of a candidate, which is the production that is drawn
    by each generator that takes the word.  The candidates share the accepted words equally, and so the
    number of words that give a production is that of its rules times the share of one candidate. -/
theorem productions_drawn_by_weight {α : Type} [BEq α] [RulePart α] [SharpWords α] (t : RuleTable α)
    (symbol : Word) {k : ℕ} (hk : (t.productions (RulePart.ofWord symbol)).length = k) (htwo : 2 ≤ k)
    (hlt : k < wordCount) :
    (∀ g : Permuted, Odd g.increment → ∃ w g', Permuted.Takes k g w g' ∧ Odd g'.increment) ∧
      (∀ w, Accepted k w → Random.index k w < k ∧
        ∃ p, (t.productions (RulePart.ofWord symbol))[Random.index k w]? = some p ∧
          ∀ g g' : Permuted, Odd g.increment → Permuted.Takes k g w g' →
            t.pickFrom (RulePart.ofWord symbol) (.generator (.permuted g)) =
              .ok (p, .generator (.permuted g'))) ∧
      {w | Accepted k w}.ncard = k * (wordCount / k) ∧
      ∀ (p : α) [DecidablePred fun r : Rule α => r.key = RulePart.ofWord symbol ∧ r.production = p],
        {w | t.Gives (RulePart.ofWord symbol) w p}.ncard =
          t.rules.countP (fun r => r.key = RulePart.ofWord symbol ∧ r.production = p) *
            (wordCount / k) := by
  have hpos : 0 < k := Nat.zero_lt_of_lt htwo
  have hle : k ≤ wordCount := Nat.le_of_lt hlt
  refine ⟨fun g hodd => ?_, fun w hacc => ⟨Random.index_lt hpos w, ?_⟩, Random.ncard_accepted hpos hle,
    fun p => ?_⟩
  · obtain ⟨w, g', htakes⟩ := Permuted.exists_takes hpos hle hodd
    exact ⟨w, g', htakes, by rw [htakes.increment_eq]; exact hodd⟩
  · have hindex : Random.index k w < (t.productions (RulePart.ofWord symbol)).length :=
      hk ▸ Random.index_lt hpos w
    exact ⟨_, List.getElem?_eq_getElem hindex, fun g g' hodd htakes =>
      RuleTable.pickFrom_of_takes hk htwo hle hodd htakes (List.getElem?_eq_getElem hindex)⟩
  · intro hdec
    classical
    have hwords : {w | t.Gives (RulePart.ofWord symbol) w p} =
        {w | Accepted k w ∧ (t.productions (RulePart.ofWord symbol))[Random.index k w]? = some p} :=
      Set.ext fun w => RuleTable.gives_iff hk htwo hle
    rw [hwords, Random.ncard_accepted_member hpos hle _ (Nat.le_of_eq hk),
      t.countP_productions (SharpWords.isSharp_ofWord symbol)]

/-- A rule that is written twice has twice the words of one that is written once. -/
theorem productions_drawn_by_weight_doubled :
    ∃ t : RuleTable Word, RuleTable.parse "X=A F=FF X=B X=A".toList = .ok t ∧
      (t.productions ['X']).length = 3 ∧ 3 < wordCount ∧
      (∃ w g', Permuted.Takes 3 (Permuted.ofSeed 7) w g') ∧
      {w | Accepted 3 w}.ncard = 4294967295 ∧
      {w | t.Gives ['X'] w ['A']}.ncard = 2863311530 ∧
      {w | t.Gives ['X'] w ['B']}.ncard = 1431655765 ∧
      {w | t.Gives ['X'] w ['F', 'F']}.ncard = 0 := by
  obtain ⟨t, ht, hparse⟩ : ∃ t : RuleTable Word, t = RuleTable.ofRules
      [⟨['X'], ['A']⟩, ⟨['F'], ['F', 'F']⟩, ⟨['X'], ['B']⟩, ⟨['X'], ['A']⟩] ∧
      RuleTable.parse "X=A F=FF X=B X=A".toList = .ok t :=
    ⟨_, rfl, rfl⟩
  have hk : (t.productions ['X']).length = 3 := by
    subst ht
    rfl
  have hlt : 3 < wordCount := by decide
  obtain ⟨htakes, -, hall, hweight⟩ :=
    productions_drawn_by_weight t ['X'] hk (by decide) hlt
  obtain ⟨w, g', hw, -⟩ := htakes (Permuted.ofSeed 7) (Permuted.odd_increment_ofSeed 7)
  subst ht
  exact ⟨_, hparse, hk, hlt, ⟨w, g', hw⟩, hall, hweight ['A'], hweight ['B'], hweight ['F', 'F']⟩

end Lindenmayer
