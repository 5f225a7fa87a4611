/-
  Rule tables: an ordered collection of rules, read in two ways.

  * As a mapping, the last rule of a key wins (`lookup`), and a key without a rule stands for
    itself.
  * As a choice, every rule of a key counts (`candidates`), in order and with duplicates: a key is
    replaced by one of its productions, chosen uniformly among its rules, so that a production
    listed twice is chosen twice as often (`pick`).  A key without a rule vanishes then.  Only a key
    with two candidates or more costs a choice.

  A table keeps its rules as they came and beside them an index, one entry for each key in order
  of first occurrence.  The index is built by adding the rules one after the other, so that a
  look-up walks the keys once and never the rules.  What ties the two together is
  `toList_candidates`: the candidates of a key are the productions of exactly its rules, in order.

  The parts of the rules are of any type that has a sameness.  The theorems ask of it that it be
  equality for the key that is looked up, as it is for every word and every text.
-/
import Lindenmayer.Random.Source
import Lindenmayer.Rule

namespace Lindenmayer

variable {α : Type}

/-! ## Keys -/

/-- The key is the same as itself and as nothing else. -/
structure IsSharp [BEq α] (key : α) : Prop where
  refl : (key == key) = true
  eq_left : ∀ {k : α}, (k == key) = true → k = key
  eq_right : ∀ {k : α}, (key == k) = true → k = key

theorem isSharp_of_lawful [BEq α] [LawfulBEq α] (key : α) : IsSharp key :=
  ⟨beq_self_eq_true key, eq_of_beq, fun h => (eq_of_beq h).symm⟩

/-- What is the same as something else is the same as a sharp key exactly if the other is. -/
theorem IsSharp.beq_congr [BEq α] {key k l : α} (h : IsSharp key) (hkl : (k == l) = true) :
    (k == key) = (l == key) := by
  rw [Bool.eq_iff_iff]
  constructor
  · intro hk
    rw [h.eq_left hk] at hkl
    rw [h.eq_right hkl]
    exact h.refl
  · intro hl
    rw [h.eq_left hl] at hkl
    rw [h.eq_left hkl]
    exact h.refl

/-! ## The index -/

/-- All productions of one key, in the order of their rules. -/
structure Entry (α : Type) where
  key : α
  candidates : Array α

/-- The entries of a table, one for each key, in order of first occurrence. -/
abbrev Index (α : Type) := List (Entry α)

namespace Index

/-- The index with one more rule: its production joins the entry of its key, or opens a new entry at
    the end. -/
def add [BEq α] : Index α → Rule α → Index α
  | [], r => [⟨r.key, #[r.production]⟩]
  | e :: es, r =>
    if e.key == r.key then ⟨e.key, e.candidates.push r.production⟩ :: es else e :: add es r

/-- The index of a list of rules. -/
def ofRules [BEq α] (rules : List (Rule α)) : Index α :=
  rules.foldl add []

/-- The candidates of a key; none if it has no entry. -/
def candidates [BEq α] (index : Index α) (key : α) : Array α :=
  match index.find? (·.key == key) with
  | some e => e.candidates
  | none => #[]

theorem candidates_cons [BEq α] (e : Entry α) (es : Index α) (key : α) :
    candidates (e :: es) key = if e.key == key then e.candidates else candidates es key := by
  unfold candidates
  rw [List.find?_cons]
  cases e.key == key <;> rfl

/-- Adding a rule lengthens the candidates of its own key and of no other. -/
theorem candidates_add [BEq α] {key : α} (hkey : IsSharp key) (index : Index α) (r : Rule α) :
    candidates (index.add r) key =
      if r.key == key then (candidates index key).push r.production else candidates index key := by
  induction index with
  | nil => cases h : r.key == key <;> simp [add, candidates, h]
  | cons e es ih =>
    rw [add]
    split
    · rename_i he
      rw [candidates_cons, candidates_cons, hkey.beq_congr he]
      split <;> rfl
    · rename_i he
      rw [candidates_cons, candidates_cons, ih]
      split
      · rename_i hk
        have hr : ¬ (r.key == key) = true := by
          intro h
          rw [hkey.eq_left hk, hkey.eq_left h] at he
          exact he hkey.refl
        rw [if_neg hr]
      · rfl

/-- Adding several rules lengthens the candidates of a key by the productions of its rules, in order. -/
theorem toList_candidates_foldl [BEq α] {key : α} (hkey : IsSharp key) (rules : List (Rule α))
    (index : Index α) :
    (candidates (rules.foldl add index) key).toList =
      (candidates index key).toList ++ (rules.filter (·.key == key)).map Rule.production := by
  induction rules generalizing index with
  | nil => simp
  | cons r rules ih =>
    rw [List.foldl_cons, ih, candidates_add hkey]
    cases h : r.key == key <;> simp [h]

end Index

/-! ## Tables -/

/-- Rules in order, with the index that belongs to them. -/
structure RuleTable (α : Type) [BEq α] where
  rules : List (Rule α)
  index : Index α
  index_eq : index = Index.ofRules rules

namespace RuleTable

variable [BEq α]

/-- The table of a list of rules. -/
def ofRules (rules : List (Rule α)) : RuleTable α :=
  ⟨rules, Index.ofRules rules, rfl⟩

@[simp] theorem rules_ofRules (rules : List (Rule α)) : (ofRules rules).rules = rules := rfl

/-- A table is determined by its rules. -/
@[ext] theorem ext {s t : RuleTable α} (h : s.rules = t.rules) : s = t := by
  obtain ⟨rules, index, hs⟩ := s
  obtain ⟨_, _, ht⟩ := t
  cases h
  cases hs
  cases ht
  rfl

/-- How many rules the table has. -/
def size (t : RuleTable α) : Nat :=
  t.rules.length

/-- The productions of a key, in the order of its rules and with duplicates. -/
def candidates (t : RuleTable α) (key : α) : Array α :=
  t.index.candidates key

/-- The productions of a key as a list. -/
def productions (t : RuleTable α) (key : α) : List α :=
  (t.candidates key).toList

/-- The table has a rule for the key. -/
def contains (t : RuleTable α) (key : α) : Bool :=
  t.index.any (·.key == key)

/-- What the key is replaced by: the production of its last rule, or the key itself if it has
    none. -/
def lookup (t : RuleTable α) (key : α) : α :=
  (t.candidates key).back?.getD key

/-- The keys of the table, each once, in order of first occurrence. -/
def keys (t : RuleTable α) : List α :=
  t.index.map Entry.key

/-- The table as a mapping: its keys in order, each with the production of its last rule. -/
def toMapping (t : RuleTable α) : List (α × α) :=
  t.index.map fun e => (e.key, e.candidates.back?.getD e.key)

/-! ### The view -/

/-- The candidates of a key are the productions of its rules, in order and with duplicates. -/
theorem toList_candidates (t : RuleTable α) {key : α} (hkey : IsSharp key) :
    (t.candidates key).toList = (t.rules.filter (·.key == key)).map Rule.production := by
  rw [candidates, t.index_eq, Index.ofRules, Index.toList_candidates_foldl hkey]
  simp [Index.candidates]

theorem productions_eq (t : RuleTable α) {key : α} (hkey : IsSharp key) :
    t.productions key = (t.rules.filter (·.key == key)).map Rule.production :=
  t.toList_candidates hkey

/-- A key is looked up as the last of its productions, or as itself if it has none. -/
theorem lookup_eq (t : RuleTable α) (key : α) :
    t.lookup key = (t.productions key).getLast?.getD key := by
  rw [lookup, productions, Array.getLast?_toList]

/-! ### The choice -/

variable [RulePart α]

/-- One of the productions of a key, drawn from a chooser; the empty word if there is none. -/
def pick {σ : Type} [Chooser σ] (t : RuleTable α) (key : α) (g : σ) : α × σ :=
  let candidates := t.candidates key
  if h : 1 < candidates.size then
    match Chooser.choose g candidates.size (by omega) with
    | (i, g) => (candidates[i], g)
  else (candidates.getD 0 (RulePart.ofWord []), g)

/-- The same from a source, which has to be a generator where there is something to choose. -/
def pickFrom (t : RuleTable α) (key : α) : Source → Except Error (α × Source)
  | .generator g =>
    match t.pick key g with
    | (production, g) => .ok (production, .generator g)
  | source =>
    if 1 < (t.candidates key).size then .error .noGenerator
    else .ok ((t.candidates key).getD 0 (RulePart.ofWord []), source)

end RuleTable

end Lindenmayer
