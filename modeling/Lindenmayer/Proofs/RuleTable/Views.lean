/-
  The views of a table.

  A table keeps an index beside its rules, and every view but its size is read off the index.  Here
  each view is said by the rules alone, for tables whose keys are words of any length; the
  productions may be anything.

  1. **The index, rule by rule** — `Index.Represents rules` is what the index keeps while it grows:
     its keys are those of the rules, and stand in the order in which their first rules do.  One more
     rule keeps it so (`Represents.add`), whether its key is a new one or not, and so it holds of the
     index of every table.  Different entries have different keys, then, and an entry holds the
     candidates of its key (`candidates_of_mem`).

  2. **Two dictionaries in one** — a dictionary in which a later rule overwrites the production of an
     earlier one, and one in which it is put behind it, both have their keys in order of first
     occurrence.  The index is the second one; the first one is its image (`toMapping_eq_foldl`).
-/
import Lindenmayer.Proofs.RuleTable.Keys
import Lindenmayer.Rules
import Mathlib.Algebra.GroupWithZero.Nat

namespace Lindenmayer

variable {α : Type} [BEq α]

/-- Where the first rule of a key stands; behind all rules if there is none. -/
def Rule.place (rules : List (Rule α)) (key : α) : Nat :=
  rules.findIdx (·.key == key)

/-! ## The index, rule by rule -/

namespace Index

/-- The keys of an index, in the order of its entries. -/
def keys (index : Index α) : List α :=
  index.map Entry.key

/-- How many candidates an index holds, all its entries together. -/
def total (index : Index α) : Nat :=
  (index.map fun e => e.candidates.size).sum

/-- One more rule brings a key that no entry has yet to the end, and leaves the keys as they are
    otherwise. -/
theorem keys_add (index : Index α) (r : Rule α) :
    (index.add r).keys =
      if index.any (·.key == r.key) then index.keys else index.keys ++ [r.key] := by
  induction index with
  | nil => rfl
  | cons e es ih =>
    rw [add, List.any_cons]
    cases he : e.key == r.key with
    | true => rfl
    | false =>
      show e.key :: keys (add es r) = _
      rw [ih, Bool.false_or]
      split
      · rfl
      · rfl

/-- There is an entry for a key exactly if it is one of the keys. -/
theorem any_eq_true_iff {index : Index α} {key : α} (hkey : IsSharp key) :
    index.any (·.key == key) = true ↔ key ∈ index.keys := by
  simp only [List.any_eq_true, keys, List.mem_map, hkey.beq_iff]

/-- One more rule is one more candidate. -/
theorem total_add (index : Index α) (r : Rule α) : (index.add r).total = index.total + 1 := by
  induction index with
  | nil => rfl
  | cons e es ih =>
    rw [add]
    split
    · simp only [total, List.map_cons, List.sum_cons, Array.size_push]
      omega
    · simp only [total, List.map_cons, List.sum_cons] at ih ⊢
      omega

theorem total_ofRules (rules : List (Rule α)) : (ofRules rules).total = rules.length := by
  induction rules using List.reverseRecOn with
  | nil => rfl
  | append_singleton rules r ih => rw [ofRules_concat, total_add, ih, List.length_append]; rfl

/-- What the index of some rules keeps while rules are added. -/
structure Represents (index : Index α) (rules : List (Rule α)) : Prop where
  /-- No two different keys are the same. -/
  sharp : ∀ r ∈ rules, IsSharp r.key
  /-- The keys are those of the rules. -/
  mem_keys : ∀ key, key ∈ index.keys ↔ ∃ r ∈ rules, r.key = key
  /-- They stand in the order of their first rules. -/
  ordered : index.keys.Pairwise fun k l => Rule.place rules k < Rule.place rules l

theorem represents_nil : Represents ([] : Index α) [] :=
  ⟨fun _ hr => absurd hr List.not_mem_nil, fun _ => by simp [keys], List.Pairwise.nil⟩

namespace Represents

variable {index : Index α} {rules : List (Rule α)} {r : Rule α}

theorem sharp_of_mem (h : index.Represents rules) {key : α} (hkey : key ∈ index.keys) :
    IsSharp key := by
  obtain ⟨q, hq, rfl⟩ := (h.mem_keys key).mp hkey
  exact h.sharp q hq

theorem nodup_keys (h : index.Represents rules) : index.keys.Nodup := by
  refine h.ordered.imp ?_
  rintro k l hlt rfl
  exact Nat.lt_irrefl _ hlt

/-- The first rule of a key that has one stays the first when a rule is added. -/
theorem place_concat (h : index.Represents rules) {key : α} (hkey : key ∈ index.keys) :
    Rule.place (rules ++ [r]) key = Rule.place rules key ∧ Rule.place rules key < rules.length := by
  have hsharp := h.sharp_of_mem hkey
  obtain ⟨q, hq, rfl⟩ := (h.mem_keys key).mp hkey
  have hlt : Rule.place rules q.key < rules.length :=
    List.findIdx_lt_length_of_exists ⟨q, hq, hsharp.refl⟩
  exact ⟨List.findIdx_append.trans (if_pos hlt), hlt⟩

/-- The first rule of a new key is the one that is added. -/
theorem place_of_new (h : index.Represents rules) (hr : IsSharp r.key) (hnew : r.key ∉ index.keys) :
    Rule.place (rules ++ [r]) r.key = rules.length := by
  have hnone : Rule.place rules r.key = rules.length := by
    refine List.findIdx_eq_length.mpr fun q hq => Bool.eq_false_iff.mpr fun hbeq => ?_
    exact hnew ((h.mem_keys r.key).mpr ⟨q, hq, hr.eq_left hbeq⟩)
  have hself : List.findIdx (fun q : Rule α => q.key == r.key) [r] = 0 := by
    rw [List.findIdx_cons, hr.refl]
    rfl
  have hnot : ¬ List.findIdx (fun q : Rule α => q.key == r.key) rules < rules.length :=
    fun hlt => Nat.lt_irrefl _ (hnone ▸ hlt)
  rw [Rule.place, List.findIdx_append, if_neg hnot, hself, Nat.zero_add]

/-- **One more rule.**  An old key keeps its place among the keys, and a new one comes last. -/
theorem add (h : index.Represents rules) (hr : IsSharp r.key) :
    (index.add r).Represents (rules ++ [r]) := by
  have hsharp : ∀ q ∈ rules ++ [r], IsSharp q.key := by
    intro q hq
    rcases List.mem_append.mp hq with hold | hlast
    · exact h.sharp q hold
    · rw [List.mem_singleton.mp hlast]
      exact hr
  have hmem : ∀ key, (∃ q ∈ rules ++ [r], q.key = key) ↔ key ∈ index.keys ∨ key = r.key := by
    intro key
    rw [h.mem_keys key]
    simp only [List.mem_append, List.mem_singleton, or_and_right, exists_or, exists_eq_left]
    exact or_congr_right eq_comm
  -- the places of the old keys stay what they were
  have hordered : index.keys.Pairwise fun k l =>
      Rule.place (rules ++ [r]) k < Rule.place (rules ++ [r]) l := by
    refine h.ordered.imp_of_mem fun hk hl hlt => ?_
    rw [(h.place_concat hk).1, (h.place_concat hl).1]
    exact hlt
  by_cases hold : r.key ∈ index.keys
  · have hkeys : (index.add r).keys = index.keys := by
      rw [keys_add, if_pos ((any_eq_true_iff hr).mpr hold)]
    refine ⟨hsharp, fun key => ?_, hkeys ▸ hordered⟩
    rw [hkeys, hmem, or_iff_left_of_imp (fun heq => heq ▸ hold)]
  · have hkeys : (index.add r).keys = index.keys ++ [r.key] := by
      rw [keys_add, if_neg (mt (any_eq_true_iff hr).mp hold)]
    refine ⟨hsharp, fun key => ?_, ?_⟩
    · rw [hkeys, hmem, List.mem_append, List.mem_singleton]
    · rw [hkeys, List.pairwise_append]
      refine ⟨hordered, List.pairwise_singleton _ _, fun k hk l hl => ?_⟩
      obtain ⟨hplace, hlt⟩ := h.place_concat (r := r) hk
      rw [List.mem_singleton.mp hl, hplace, h.place_of_new hr hold]
      exact hlt

end Represents

/-- **The index of rules with sharp keys represents them.** -/
theorem represents_ofRules {rules : List (Rule α)} (h : ∀ r ∈ rules, IsSharp r.key) :
    (ofRules rules).Represents rules := by
  induction rules using List.reverseRecOn with
  | nil => exact represents_nil
  | append_singleton rules r ih =>
    obtain ⟨hrules, hlast⟩ := List.forall_mem_append.mp h
    rw [ofRules_concat]
    exact (ih hrules).add (hlast r (List.mem_singleton_self r))

/-- With different keys, an entry holds the candidates of its key. -/
theorem candidates_of_mem {index : Index α} (hsharp : ∀ e ∈ index, IsSharp e.key)
    (hnodup : index.keys.Nodup) {e : Entry α} (he : e ∈ index) :
    index.candidates e.key = e.candidates := by
  induction index with
  | nil => exact absurd he List.not_mem_nil
  | cons d es ih =>
    obtain ⟨hd, hes⟩ := List.forall_mem_cons.mp hsharp
    obtain ⟨hnew, hrest⟩ := List.nodup_cons.mp hnodup
    rw [candidates_cons]
    rcases List.mem_cons.mp he with rfl | hmem
    · rw [if_pos hd.refl]
    · have hother : ¬ (d.key == e.key) = true := fun hbeq =>
        hnew (hd.eq_right hbeq ▸ List.mem_map_of_mem hmem)
      rw [if_neg hother]
      exact ih hes hrest hmem

end Index

/-! ## Two dictionaries in one -/

namespace RuleTable

/-- A dictionary after one more rule that overwrites: the production replaces the value of a key that
    is the same, in its place, or comes last with its key. -/
def overwrite : List (α × α) → Rule α → List (α × α)
  | [], r => [(r.key, r.production)]
  | (key, value) :: entries, r =>
    if key == r.key then (key, r.production) :: entries else (key, value) :: overwrite entries r

/-- What an index looks its keys up as, after one more rule. -/
theorem map_add_eq_overwrite (index : Index α) (r : Rule α) :
    (index.add r).map (fun e => (e.key, e.candidates.back?.getD e.key)) =
      overwrite (index.map fun e => (e.key, e.candidates.back?.getD e.key)) r := by
  induction index with
  | nil => rfl
  | cons e es ih =>
    rw [Index.add, List.map_cons, overwrite]
    split
    · rw [List.map_cons, Array.back?_push]
      rfl
    · rw [List.map_cons, ih]

/-- **The table as a mapping is the dictionary that its rules overwrite**, one after the other. -/
theorem toMapping_eq_foldl (t : RuleTable α) : t.toMapping = t.rules.foldl overwrite [] := by
  rw [toMapping, t.index_eq]
  exact (List.foldl_hom _ fun index r => (map_add_eq_overwrite index r).symm).symm

section

variable {t : RuleTable α}

theorem represents_index (h : ∀ r ∈ t.rules, IsSharp r.key) : t.index.Represents t.rules := by
  rw [t.index_eq]
  exact Index.represents_ofRules h

/-- The index of a table is made of its keys and their candidates. -/
theorem candidates_entry (h : ∀ r ∈ t.rules, IsSharp r.key) {e : Entry α} (he : e ∈ t.index) :
    t.candidates e.key = e.candidates := by
  have hrep := represents_index h
  have hsharp : ∀ d ∈ t.index, IsSharp d.key := fun d hd => hrep.sharp_of_mem (List.mem_map_of_mem hd)
  exact Index.candidates_of_mem hsharp hrep.nodup_keys he

/-- The mapping looks every key of the table up. -/
theorem toMapping_eq_map (h : ∀ r ∈ t.rules, IsSharp r.key) :
    t.toMapping = t.keys.map fun key => (key, t.lookup key) := by
  rw [toMapping, keys, List.map_map]
  refine List.map_congr_left fun e he => ?_
  show _ = (e.key, (t.candidates e.key).back?.getD e.key)
  rw [candidates_entry h he]

/-- The productions of all keys together are as many as the rules. -/
theorem size_eq_sum (h : ∀ r ∈ t.rules, IsSharp r.key) :
    t.size = (t.keys.map fun key => (t.productions key).length).sum := by
  rw [size, ← Index.total_ofRules, ← t.index_eq, Index.total, keys, List.map_map]
  refine congrArg List.sum (List.map_congr_left fun e he => ?_)
  show _ = (t.candidates e.key).toList.length
  rw [candidates_entry h he, Array.length_toList]

end

/-! ## All views -/

variable [RulePart α]

/-- All keys of the table are words, of any length. -/
def WordKeys (t : RuleTable α) : Prop :=
  ∀ r ∈ t.rules, ∃ w : Word, r.key = RulePart.ofWord w

theorem WordKeys.sharp [SharpWords α] {t : RuleTable α} (h : t.WordKeys) :
    ∀ r ∈ t.rules, IsSharp r.key := by
  intro r hr
  obtain ⟨w, hw⟩ := h r hr
  rw [hw]
  exact SharpWords.isSharp_ofWord w

end RuleTable

/-- **The views of a table agree.**  Let the keys of a table be words, and its rules of whatever
    origin and order.  The productions of a word are those of exactly its rules, in order and with
    duplicates; it has some exactly if the table has a rule for it; and it is looked up as the last of
    them, or as itself.  The keys of the table are those of its rules, each once, in the order of
    their first rules.  The mapping has these keys in this order, each with what it is looked up as,
    and is the dictionary that the rules overwrite one after the other.  The table has as many rules
    as its keys have productions. -/
theorem table_views_agree {α : Type} [BEq α] [RulePart α] [SharpWords α] (t : RuleTable α)
    (hkeys : t.WordKeys) :
    (∀ w : Word,
      t.productions (RulePart.ofWord w) =
        (t.rules.filter (·.key == RulePart.ofWord w)).map Rule.production ∧
      (t.contains (RulePart.ofWord w) = true ↔ t.productions (RulePart.ofWord w) ≠ []) ∧
      t.lookup (RulePart.ofWord w) =
        (t.productions (RulePart.ofWord w)).getLast?.getD (RulePart.ofWord w)) ∧
    t.keys.Nodup ∧
    (∀ key, key ∈ t.keys ↔ ∃ r ∈ t.rules, r.key = key) ∧
    t.keys.Pairwise (fun k l => Rule.place t.rules k < Rule.place t.rules l) ∧
    t.toMapping = t.keys.map (fun key => (key, t.lookup key)) ∧
    t.toMapping = t.rules.foldl RuleTable.overwrite [] ∧
    t.size = (t.keys.map fun key => (t.productions key).length).sum := by
  have hrep := RuleTable.represents_index hkeys.sharp
  refine ⟨fun w => ?_, hrep.nodup_keys, hrep.mem_keys, hrep.ordered,
    RuleTable.toMapping_eq_map hkeys.sharp, t.toMapping_eq_foldl, RuleTable.size_eq_sum hkeys.sharp⟩
  have hw : IsSharp (RulePart.ofWord w : α) := SharpWords.isSharp_ofWord w
  refine ⟨t.productions_eq hw, ?_, t.lookup_eq _⟩
  rw [← Bool.not_eq_false, ne_eq, t.productions_eq_nil_iff hw]

/-- Entries that nobody checked: keys of no, one and two symbols, with rules of one key apart from each
    other, and a production that is no text. -/
theorem table_views_agree_interleaved :
    ∃ t : RuleTable Value,
      RuleTable.ofEntries (.list [.tuple [.text ['F'], .text ['F', 'X']],
        .tuple [.text ['A', 'B'], .int 5], .text ['X', 'A'], .list [.text ['F'], .text []],
        .tuple [.text [], .text ['F']], .tuple [.text ['A', 'B'], .text ['F']]]) = .ok t ∧
      t.WordKeys ∧
      t.productions (RulePart.ofWord ['A', 'B']) = [.int 5, .text ['F']] ∧
      t.lookup (RulePart.ofWord ['F']) =
        (t.productions (RulePart.ofWord ['F'])).getLast?.getD (RulePart.ofWord ['F']) ∧
      t.keys = [.text ['F'], .text ['A', 'B'], .text ['X'], .text []] ∧ t.keys.Nodup ∧
      t.toMapping = [(.text ['F'], .text []), (.text ['A', 'B'], .text ['F']),
        (.text ['X'], .text ['A']), (.text [], .text ['F'])] ∧
      t.toMapping = t.keys.map (fun key => (key, t.lookup key)) ∧
      t.size = (t.keys.map fun key => (t.productions key).length).sum := by
  obtain ⟨t, ht, hmade⟩ : ∃ t : RuleTable Value, t = RuleTable.ofRules
      [⟨.text ['F'], .text ['F', 'X']⟩, ⟨.text ['A', 'B'], .int 5⟩, ⟨.text ['X'], .text ['A']⟩,
        ⟨.text ['F'], .text []⟩, ⟨.text [], .text ['F']⟩, ⟨.text ['A', 'B'], .text ['F']⟩] ∧
      RuleTable.ofEntries (.list [.tuple [.text ['F'], .text ['F', 'X']],
        .tuple [.text ['A', 'B'], .int 5], .text ['X', 'A'], .list [.text ['F'], .text []],
        .tuple [.text [], .text ['F']], .tuple [.text ['A', 'B'], .text ['F']]]) = .ok t :=
    ⟨_, rfl, rfl⟩
  have hkeys : t.WordKeys := by
    subst ht
    simp [RuleTable.WordKeys, RulePart.ofWord]
  obtain ⟨hwords, hnodup, -, -, hmapping, -, hsize⟩ := table_views_agree t hkeys
  refine ⟨t, hmade, hkeys, ?_, (hwords ['F']).2.2, ?_, hnodup, ?_, hmapping, hsize⟩
  · subst ht
    rfl
  · subst ht
    rfl
  · subst ht
    rfl

end Lindenmayer
