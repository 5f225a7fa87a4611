/-
  Words as keys.

  The keys of a table may be values of any kind, and their sameness need not be equality.  But the
  key that is looked up for a symbol is a word, and a word is the same as itself and as nothing else
  (`SharpWords`), among words as well as among values.  So what a table does with a symbol is said
  by the rules whose key IS that symbol.
-/
import Lindenmayer.Proofs.RuleTable.Textual

namespace Lindenmayer

/-! ## Words are sharp -/

/-- Being the same as a sharp key is being that key. -/
theorem IsSharp.beq_iff {α : Type} [BEq α] {key k : α} (h : IsSharp key) :
    (k == key) = true ↔ k = key := by
  constructor
  · exact h.eq_left
  · rintro rfl
    exact h.refl

/-- As keys, words are the same as themselves and as nothing else. -/
class SharpWords (α : Type) [BEq α] [RulePart α] : Prop where
  isSharp_ofWord : ∀ w : Word, IsSharp (RulePart.ofWord w : α)

instance : SharpWords Word := ⟨fun w => isSharp_of_lawful w⟩

namespace Value

/-- Only a text is the same as a text: no number is, and what else there is has no number. -/
theorem eq_of_same_text {v : Value} {w : Word} (h : v.same (.text w) = true) : v = .text w := by
  cases v with
  | text u => exact congrArg Value.text (eq_of_beq (by simpa [same] using h))
  | _ => simp [same, countedNumber?, number?] at h

theorem eq_of_text_same {v : Value} {w : Word} (h : (Value.text w).same v = true) : v = .text w := by
  cases v with
  | text u => exact congrArg Value.text (eq_of_beq (by simpa [same] using h)).symm
  | _ => simp [same, countedNumber?, number?] at h

theorem text_same_self (w : Word) : (Value.text w).same (.text w) = true := by
  simp [same]

end Value

instance : SharpWords Value :=
  ⟨fun w => ⟨Value.text_same_self w, Value.eq_of_same_text, Value.eq_of_text_same⟩⟩

/-- Different words are different parts of a rule. -/
theorem RulePart.ofWord_injective {α : Type} [RulePart α] [LawfulRulePart α] :
    Function.Injective (RulePart.ofWord : Word → α) := by
  intro v w h
  have hvalue : RulePart.toValue (RulePart.ofWord v : α) = RulePart.toValue (RulePart.ofWord w : α) :=
    congrArg RulePart.toValue h
  rw [LawfulRulePart.toValue_ofWord, LawfulRulePart.toValue_ofWord] at hvalue
  exact Value.text.inj hvalue

/-! ## What a table holds -/

/-- The index with one more rule has an entry for its key, and no other new one. -/
theorem Index.any_add {α : Type} [BEq α] {key : α} (hkey : IsSharp key) (index : Index α)
    (r : Rule α) :
    (index.add r).any (·.key == key) = (index.any (·.key == key) || r.key == key) := by
  induction index with
  | nil => simp [add]
  | cons e es ih =>
    rw [add]
    split
    · -- the entry that the production joins had the key already, if the rule has
      rename_i he
      rw [List.any_cons, List.any_cons, hkey.beq_congr he]
      cases r.key == key <;> simp
    · rw [List.any_cons, List.any_cons, ih, Bool.or_assoc]

namespace RuleTable

variable {α : Type} [BEq α]

/-- A table has a rule for a key if one of its rules has that key. -/
theorem contains_eq_any (t : RuleTable α) {key : α} (hkey : IsSharp key) :
    t.contains key = t.rules.any (·.key == key) := by
  have general : ∀ rules : List (Rule α),
      (Index.ofRules rules).any (·.key == key) = rules.any (·.key == key) := by
    intro rules
    induction rules using List.reverseRecOn with
    | nil => rfl
    | append_singleton rules r ih =>
      rw [Index.ofRules_concat, Index.any_add hkey, ih, List.any_append, List.any_cons, List.any_nil,
        Bool.or_false]
  rw [contains, t.index_eq, general]

/-- The productions of a key are those of the rules with that key. -/
theorem mem_productions_iff (t : RuleTable α) {key : α} (hkey : IsSharp key) {part : α} :
    part ∈ t.productions key ↔ ∃ r ∈ t.rules, r.key = key ∧ r.production = part := by
  simp only [t.productions_eq hkey, List.mem_map, List.mem_filter, hkey.beq_iff, and_assoc]

/-- A key with productions is looked up as one of them. -/
theorem lookup_mem {t : RuleTable α} {key part : α} (h : part ∈ t.productions key) :
    t.lookup key ∈ t.productions key := by
  rw [lookup_eq]
  cases hlast : (t.productions key).getLast? with
  | none =>
    rw [List.getLast?_eq_none_iff.mp hlast] at h
    exact absurd h List.not_mem_nil
  | some last => exact List.mem_of_getLast? hlast

/-- A key without a rule has no productions, and any other has one. -/
theorem productions_eq_nil_iff (t : RuleTable α) {key : α} (hkey : IsSharp key) :
    t.productions key = [] ↔ t.contains key = false := by
  rw [t.productions_eq hkey, t.contains_eq_any hkey, List.map_eq_nil_iff, List.filter_eq_nil_iff,
    List.any_eq_false]

/-! ## Tables that are changed rule by rule -/

section

variable {β : Type} [BEq β] {s : RuleTable α} {t : RuleTable β} {key : α} {key' : β} {g : α → β}

/-- With all keys changed by one function and all productions by another, a key has the productions
    of the key that it comes from, changed, if no other key becomes the same. -/
theorem productions_of_map {f : α → β} (hrules : t.rules = s.rules.map fun r => ⟨f r.key, g r.production⟩)
    (hkey : IsSharp key) (hkey' : IsSharp key')
    (hsame : ∀ r ∈ s.rules, (f r.key == key') = (r.key == key)) :
    t.productions key' = (s.productions key).map g := by
  rw [productions_eq _ hkey, productions_eq _ hkey', hrules, List.filter_map, List.map_map,
    List.map_map]
  show List.map _ (s.rules.filter fun r => f r.key == key') = _
  rw [List.filter_congr hsame]
  rfl

/-- A key whose productions are those of another one, changed, is looked up as the other one is,
    changed, if that is so for the keys themselves. -/
theorem lookup_of_map (hkeys : g key = key')
    (hmap : t.productions key' = (s.productions key).map g) : t.lookup key' = g (s.lookup key) := by
  rw [lookup_eq, lookup_eq, hmap, List.getLast?_map, ← hkeys, Option.getD_map]

end

variable [RulePart α]

/-- All keys of the table are single symbols. -/
def SymbolKeys (t : RuleTable α) : Prop :=
  ∀ r ∈ t.rules, ∃ c : Symbol, r.key = RulePart.ofWord [c]

end RuleTable

end Lindenmayer
