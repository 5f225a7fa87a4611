/-
  Textual tables: rule tables whose productions are all words.

  A table of words has no other productions.  A table of entries that nobody checked is textual if
  the productions among them are texts; its keys may be anything.  What a symbol is replaced by is
  then a word under either reading of the table, since both give a production of some rule, or the
  symbol itself, or nothing.
-/
import Lindenmayer.RuleTable.Basic
import Mathlib.Data.List.Induction

namespace Lindenmayer

/-! ## Parts of rules that are words -/

/-- A word, made a part of a rule, is still that word. -/
class LawfulRulePart (α : Type) [RulePart α] : Prop where
  toValue_ofWord : ∀ w : Word, RulePart.toValue (RulePart.ofWord w : α) = .text w

instance : LawfulRulePart Word := ⟨fun _ => rfl⟩

instance : LawfulRulePart Value := ⟨fun _ => rfl⟩

namespace RulePart

variable {α : Type} [RulePart α]

/-- The part of a rule is the word. -/
def Is (part : α) (w : Word) : Prop :=
  toValue part = .text w

/-- The word that a part of a rule is; the empty word for a part that is none. -/
def toWord (part : α) : Word :=
  match toValue part with
  | .text w => w
  | _ => []

theorem Is.toWord_eq {part : α} {w : Word} (h : Is part w) : toWord part = w := by
  unfold toWord
  rw [h]

theorem is_ofWord [LawfulRulePart α] (w : Word) : Is (ofWord w : α) w :=
  LawfulRulePart.toValue_ofWord w

@[simp] theorem toWord_ofWord [LawfulRulePart α] (w : Word) : toWord (ofWord w : α) = w :=
  (is_ofWord w).toWord_eq

end RulePart

/-! ## Where productions come from -/

theorem Index.ofRules_concat {α : Type} [BEq α] (rules : List (Rule α)) (r : Rule α) :
    ofRules (rules ++ [r]) = (ofRules rules).add r := by
  rw [ofRules, List.foldl_append]
  rfl

/-- A candidate that is there after a rule was added was there before, or is that rule's. -/
theorem Index.mem_candidates_add {α : Type} [BEq α] (index : Index α) (r : Rule α) {key part : α}
    (h : part ∈ (index.add r).candidates key) :
    part ∈ index.candidates key ∨ part = r.production := by
  induction index with
  | nil =>
    rw [add, candidates_cons] at h
    split at h
    · exact Or.inr (by simpa using h)
    · exact Or.inl h
  | cons e es ih =>
    rw [add] at h
    rw [candidates_cons]
    split at h
    · rw [candidates_cons] at h
      split at h
      · rename_i hkey
        rw [if_pos hkey]
        exact Array.mem_push.mp h
      · rename_i hkey
        rw [if_neg hkey]
        exact Or.inl h
    · rw [candidates_cons] at h
      split at h
      · rename_i hkey
        rw [if_pos hkey]
        exact Or.inl h
      · rename_i hkey
        rw [if_neg hkey]
        exact ih h

/-- Among equally many candidates the choice is the same. -/
theorem Chooser.choose_congr {σ : Type} [Chooser σ] (g : σ) {k l : Nat} (h : k = l) (hk : 0 < k)
    (hl : 0 < l) :
    (choose g k hk).1.val = (choose g l hl).1.val ∧ (choose g k hk).2 = (choose g l hl).2 := by
  subst h
  exact ⟨rfl, rfl⟩

namespace RuleTable

variable {α : Type} [BEq α]

/-- Every candidate is the production of a rule. -/
theorem exists_rule_of_mem_candidates (t : RuleTable α) {key part : α}
    (h : part ∈ t.candidates key) : ∃ r ∈ t.rules, r.production = part := by
  have general : ∀ rules : List (Rule α), part ∈ (Index.ofRules rules).candidates key →
      ∃ r ∈ rules, r.production = part := by
    intro rules
    induction rules using List.reverseRecOn with
    | nil => exact fun hnil => absurd hnil (Array.not_mem_empty part)
    | append_singleton rules r ih =>
      intro hmem
      rw [Index.ofRules_concat] at hmem
      rcases Index.mem_candidates_add _ r hmem with hmem | hpart
      · obtain ⟨s, hs, hpart⟩ := ih hmem
        exact ⟨s, List.mem_append_left [r] hs, hpart⟩
      · exact ⟨r, List.mem_append_right rules (List.mem_singleton_self r), hpart.symm⟩
  rw [candidates, t.index_eq] at h
  exact general t.rules h

/-! ## Textual tables -/

variable [RulePart α]

/-- All productions of the table are words. -/
def Textual (t : RuleTable α) : Prop :=
  ∀ r ∈ t.rules, ∃ w, RulePart.Is r.production w

theorem textual_of_words (t : RuleTable Word) : t.Textual :=
  fun r _ => ⟨r.production, rfl⟩

/-- The candidates of a textual table are words. -/
theorem Textual.candidate {t : RuleTable α} (h : t.Textual) {key part : α}
    (hpart : part ∈ t.candidates key) : ∃ w, RulePart.Is part w := by
  obtain ⟨r, hr, rfl⟩ := t.exists_rule_of_mem_candidates hpart
  exact h r hr

/-- A symbol is looked up as a word. -/
theorem Textual.lookup [LawfulRulePart α] {t : RuleTable α} (h : t.Textual) (w : Word) :
    ∃ v, RulePart.Is (t.lookup (RulePart.ofWord w)) v := by
  unfold RuleTable.lookup
  cases hback : (t.candidates (RulePart.ofWord w)).back? with
  | none => exact ⟨w, RulePart.is_ofWord w⟩
  | some part => exact h.candidate (Array.mem_of_back? hback)

/-- **What can be drawn**: one of the productions of the key, or the empty word if it has none. -/
theorem pick_cases {σ : Type} [Chooser σ] (t : RuleTable α) (key : α) (g : σ) :
    (t.pick key g).1 ∈ t.productions key ∨
      t.productions key = [] ∧ (t.pick key g).1 = RulePart.ofWord [] := by
  unfold pick productions
  by_cases h : 1 < (t.candidates key).size
  · refine Or.inl ?_
    rw [dif_pos h]
    exact Array.mem_toList_iff.mpr (Array.getElem_mem _)
  · rw [dif_neg h]
    by_cases h0 : 0 < (t.candidates key).size
    · refine Or.inl (Array.mem_toList_iff.mpr ?_)
      show (t.candidates key).getD 0 _ ∈ _
      rw [Array.getD, dif_pos h0]
      exact Array.getElem_mem h0
    · have hempty : t.candidates key = #[] := Array.size_eq_zero_iff.mp (by omega)
      rw [hempty]
      exact Or.inr ⟨rfl, rfl⟩

/-- A key without productions vanishes, at no cost. -/
theorem pick_of_productions_nil {σ : Type} [Chooser σ] {t : RuleTable α} {key : α}
    (h : t.productions key = []) (g : σ) : t.pick key g = (RulePart.ofWord [], g) := by
  have hempty : t.candidates key = #[] := Array.toList_eq_nil_iff.mp h
  have hfew : ¬ 1 < (t.candidates key).size := by
    rw [hempty]
    exact Nat.not_lt_zero 1
  unfold pick
  rw [dif_neg hfew, hempty]
  rfl

/-- A key whose productions are those of another one, each changed by a function, is drawn for as the
    other one is, by the same choice. -/
theorem pick_of_map {σ β : Type} [Chooser σ] [BEq β] [RulePart β] {s : RuleTable α} {t : RuleTable β}
    {key : α} {key' : β} {f : α → β} (hnone : f (RulePart.ofWord []) = RulePart.ofWord [])
    (hmap : t.productions key' = (s.productions key).map f) (g : σ) :
    t.pick key' g = (f (s.pick key g).1, (s.pick key g).2) := by
  have h : t.candidates key' = (s.candidates key).map f := by
    apply Array.toList_inj.mp
    rw [Array.toList_map]
    exact hmap
  have hsize : (t.candidates key').size = (s.candidates key).size := by rw [h, Array.size_map]
  unfold pick
  by_cases hmany : 1 < (s.candidates key).size
  · have hmany' : 1 < (t.candidates key').size := hsize ▸ hmany
    obtain ⟨hindex, hstate⟩ := Chooser.choose_congr g hsize (Nat.zero_lt_of_lt hmany')
      (Nat.zero_lt_of_lt hmany)
    rw [dif_pos hmany, dif_pos hmany']
    refine Prod.ext ?_ hstate
    show (t.candidates key')[(Chooser.choose g (t.candidates key').size _).1.val] = f _
    simp only [h, Array.getElem_map, hindex]
    rfl
  · have hmany' : ¬ 1 < (t.candidates key').size := hsize ▸ hmany
    rw [dif_neg hmany, dif_neg hmany', h, ← hnone]
    simp only [Array.getD_eq_getD_getElem?, Array.getElem?_map, Option.getD_map]

/-- A word that is drawn is the production of a rule, or empty. -/
theorem word_of_pick [LawfulRulePart α] {σ : Type} [Chooser σ] {t : RuleTable α} {key : α} {g : σ}
    {w : Word} (h : RulePart.Is (t.pick key g).1 w) :
    (∃ r ∈ t.rules, RulePart.Is r.production w) ∨ w = [] := by
  rcases t.pick_cases key g with hmem | ⟨-, hnone⟩
  · obtain ⟨r, hr, hproduction⟩ :=
      t.exists_rule_of_mem_candidates (Array.mem_toList_iff.mp hmem)
    rw [← hproduction] at h
    exact Or.inl ⟨r, hr, h⟩
  · rw [hnone] at h
    have hempty : [] = w := Value.text.inj ((RulePart.is_ofWord []).symm.trans h)
    exact Or.inr hempty.symm

/-- What is drawn for a symbol is a word. -/
theorem Textual.pick [LawfulRulePart α] {σ : Type} [Chooser σ] {t : RuleTable α} (h : t.Textual)
    (key : α) (g : σ) : ∃ w, RulePart.Is (t.pick key g).1 w := by
  rcases t.pick_cases key g with hmem | ⟨-, hnone⟩
  · exact h.candidate (Array.mem_toList_iff.mp hmem)
  · rw [hnone]
    exact ⟨[], RulePart.is_ofWord []⟩

end RuleTable

end Lindenmayer
