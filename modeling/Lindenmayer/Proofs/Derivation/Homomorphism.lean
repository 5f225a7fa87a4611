/-
  Derivations that look symbols up, as maps of words.

  The image of two words put together is their images put together, and so it is after any number of
  passes: what becomes of a symbol is the same in every word (`iterate_image_flatMap`).  The words
  between the passes are cut in different places all the time, but the cut between the two halves
  goes along with them.

  Of the passes themselves only the bound looks at a word as a whole.  It is compared with the length
  of both halves together, so that each half gets through where the whole does (`Passes.of_append`),
  and the whole gets through under the sum of the bounds that the halves get through under
  (`Passes.append`).  Bounds below zero are no part of this: the empty word gets through under them,
  and nothing else does.
-/
import Lindenmayer.Proofs.Derivation.Lookup

namespace Lindenmayer

namespace RuleTable

variable {α : Type} [BEq α] [RulePart α] {t : RuleTable α}

/-! ## Images of joined words -/

theorem iterate_image_append (t : RuleTable α) (n : Nat) (u v : Word) :
    t.image^[n] (u ++ v) = t.image^[n] u ++ t.image^[n] v := by
  induction n with
  | zero => rfl
  | succ n ih =>
    rw [Function.iterate_succ_apply', Function.iterate_succ_apply', Function.iterate_succ_apply', ih,
      image_append]

theorem iterate_image_nil (t : RuleTable α) (n : Nat) : t.image^[n] [] = [] :=
  Function.iterate_fixed t.image_nil n

/-- **No symbol sees its neighbours**, over any number of passes. -/
theorem iterate_image_flatMap (t : RuleTable α) (n : Nat) (w : Word) :
    t.image^[n] w = w.flatMap fun c => t.image^[n] [c] := by
  induction w with
  | nil => exact t.iterate_image_nil n
  | cons c w ih =>
    have hcons : c :: w = [c] ++ w := rfl
    rw [hcons, iterate_image_append, ih]
    rfl

/-! ## Passes over joined words -/

theorem spells_append_iff {u v : Word} : t.Spells (u ++ v) ↔ t.Spells u ∧ t.Spells v :=
  List.forall_mem_append

/-- Where the whole gets through, so do its parts. -/
theorem Passes.of_append {bound : Option Int} {u v : Word} (h : t.Passes bound (u ++ v)) :
    t.Passes bound u ∧ t.Passes bound v := by
  obtain ⟨hu, hv⟩ := spells_append_iff.mp h.spells
  have hlong : ∀ m, bound = some m → u ++ v ≠ [] →
      ((t.image u).length : Int) ≤ m ∧ ((t.image v).length : Int) ≤ m := by
    intro m hm hne
    have hle := h.fits m hm hne
    rw [image_append, List.length_append] at hle
    omega
  refine ⟨⟨hu, ?_⟩, ⟨hv, ?_⟩⟩
  · intro m hm hne
    exact (hlong m hm (List.append_ne_nil_of_left_ne_nil hne v)).1
  · intro m hm hne
    exact (hlong m hm (List.append_ne_nil_of_right_ne_nil u hne)).2

/-- A word that gets through under a bound from zero on has an image within the bound, also if it is
    empty. -/
theorem Passes.length_image_le {m : Int} {w : Word} (h : t.Passes (some m) w) (hm : 0 ≤ m) :
    ((t.image w).length : Int) ≤ m := by
  by_cases hw : w = []
  · subst hw
    simpa using hm
  · exact h.fits m rfl hw

/-- Words that get through under their bounds get through together under the sum. -/
theorem Passes.append {a b : Int} (ha : 0 ≤ a) (hb : 0 ≤ b) {u v : Word}
    (hu : t.Passes (some a) u) (hv : t.Passes (some b) v) : t.Passes (some (a + b)) (u ++ v) := by
  refine ⟨spells_append_iff.mpr ⟨hu.spells, hv.spells⟩, ?_⟩
  intro m hm _
  obtain rfl := Option.some.inj hm
  have hule := hu.length_image_le ha
  have hvle := hv.length_image_le hb
  rw [image_append, List.length_append]
  omega

end RuleTable

/-! ## Derivations of joined words -/

/-- **Looking symbols up is a homomorphism**, over any number of passes.  Without a bound, a table
    whose productions are words takes two words put together to what it takes the two words to, put
    together; a table of any kind does so too, or fails on both sides.  Under a bound, the parts of
    a word get through where the word does, and two words get through together under the sum of
    their bounds.  What becomes of a symbol is the same in every word, whatever stands beside it. -/
theorem looking_up_is_homomorphic {α : Type} [BEq α] [RulePart α] [LawfulRulePart α]
    (table : RuleTable α) {strategy : Strategy} (h : strategy ≠ .stochastic) (n : Nat)
    (source : Source) :
    (table.Textual → ∀ u v : Word, ∃ u' v' : Word,
      (deriveFrom strategy u table (.int n) source none).outcome = .ok u' ∧
      (deriveFrom strategy v table (.int n) source none).outcome = .ok v' ∧
      (deriveFrom strategy (u ++ v) table (.int n) source none).outcome = .ok (u' ++ v')) ∧
    (∀ u v w : Word, (deriveFrom strategy (u ++ v) table (.int n) source none).outcome = .ok w ↔
      ∃ u' v' : Word, (deriveFrom strategy u table (.int n) source none).outcome = .ok u' ∧
        (deriveFrom strategy v table (.int n) source none).outcome = .ok v' ∧ w = u' ++ v') ∧
    (∀ (m : Int) (u v w : Word),
      (deriveFrom strategy (u ++ v) table (.int n) source (some m)).outcome = .ok w →
      ∃ u' v' : Word, (deriveFrom strategy u table (.int n) source (some m)).outcome = .ok u' ∧
        (deriveFrom strategy v table (.int n) source (some m)).outcome = .ok v' ∧ w = u' ++ v') ∧
    (∀ a b : Int, 0 ≤ a → 0 ≤ b → ∀ u v u' v' : Word,
      (deriveFrom strategy u table (.int n) source (some a)).outcome = .ok u' →
      (deriveFrom strategy v table (.int n) source (some b)).outcome = .ok v' →
      (deriveFrom strategy (u ++ v) table (.int n) source (some (a + b))).outcome =
        .ok (u' ++ v')) ∧
    ∃ f : Symbol → Word, ∀ (bound : Option Int) (w w' : Word),
      (deriveFrom strategy w table (.int n) source bound).outcome = .ok w' → w' = w.flatMap f := by
  simp only [RuleTable.outcome_looking_eq_ok_iff h]
  -- the parts of a word go through the passes that the word goes through
  have hparts : ∀ (bound : Option Int) (u v : Word),
      (∀ i, i < n → table.Passes bound (table.image^[i] (u ++ v))) →
        (∀ i, i < n → table.Passes bound (table.image^[i] u)) ∧
          ∀ i, i < n → table.Passes bound (table.image^[i] v) := by
    intro bound u v hall
    have hboth : ∀ i, i < n → table.Passes bound (table.image^[i] u) ∧
        table.Passes bound (table.image^[i] v) := by
      intro i hi
      have hi := hall i hi
      rw [table.iterate_image_append] at hi
      exact hi.of_append
    exact ⟨fun i hi => (hboth i hi).1, fun i hi => (hboth i hi).2⟩
  refine ⟨?_, ?_, ?_, ?_, ?_⟩
  · intro htext u v
    have hpasses : ∀ w i, i < n → table.Passes none (table.image^[i] w) :=
      fun w i _ => RuleTable.passes_none_iff.mpr (htext.spells _)
    refine ⟨_, _, ⟨hpasses u, rfl⟩, ⟨hpasses v, rfl⟩, hpasses (u ++ v), ?_⟩
    exact (table.iterate_image_append n u v).symm
  · intro u v w
    constructor
    · rintro ⟨hall, rfl⟩
      obtain ⟨hu, hv⟩ := hparts none u v hall
      exact ⟨_, _, ⟨hu, rfl⟩, ⟨hv, rfl⟩, table.iterate_image_append n u v⟩
    · rintro ⟨u', v', ⟨hu, rfl⟩, ⟨hv, rfl⟩, rfl⟩
      refine ⟨?_, (table.iterate_image_append n u v).symm⟩
      intro i hi
      rw [table.iterate_image_append, RuleTable.passes_none_iff, RuleTable.spells_append_iff]
      exact ⟨(hu i hi).spells, (hv i hi).spells⟩
  · rintro m u v w ⟨hall, rfl⟩
    obtain ⟨hu, hv⟩ := hparts (some m) u v hall
    exact ⟨_, _, ⟨hu, rfl⟩, ⟨hv, rfl⟩, table.iterate_image_append n u v⟩
  · rintro a b ha hb u v u' v' ⟨hu, rfl⟩ ⟨hv, rfl⟩
    refine ⟨?_, (table.iterate_image_append n u v).symm⟩
    intro i hi
    rw [table.iterate_image_append]
    exact (hu i hi).append ha hb (hv i hi)
  · refine ⟨fun c => table.image^[n] [c], ?_⟩
    rintro bound w w' ⟨-, rfl⟩
    exact table.iterate_image_flatMap n w

/-- A symbol that is erased needs no room: two words get through together under the bound that the
    first one just reaches, and so do both alone. -/
theorem looking_up_is_homomorphic_erasing :
    ∃ table : RuleTable Word, RuleTable.parse "F=FXF X=".toList = .ok table ∧ table.Textual ∧
      Strategy.contextual ≠ .stochastic ∧ (0 : Int) ≤ 6 ∧ (0 : Int) ≤ 0 ∧
      (deriveFrom .contextual ['F'] table (.int (2 : Nat)) (.seed 0) (some 6)).outcome =
        .ok "FXFFXF".toList ∧
      (deriveFrom .contextual ['X', 'X'] table (.int (2 : Nat)) (.seed 0) (some 0)).outcome =
        .ok [] ∧
      (deriveFrom .contextual (['F'] ++ ['X', 'X']) table (.int (2 : Nat)) (.seed 0)
        (some (6 + 0))).outcome = .ok ("FXFFXF".toList ++ []) ∧
      ∃ u v, (deriveFrom .contextual ['F'] table (.int (2 : Nat)) (.seed 0) none).outcome = .ok u ∧
        (deriveFrom .contextual ['X', 'X'] table (.int (2 : Nat)) (.seed 0) none).outcome = .ok v ∧
        (deriveFrom .contextual (['F'] ++ ['X', 'X']) table (.int (2 : Nat)) (.seed 0) none).outcome =
          .ok (u ++ v) := by
  have hstrategy : Strategy.contextual ≠ .stochastic := fun h => nomatch h
  have htext := RuleTable.textual_of_words (RuleTable.ofRules [⟨['F'], "FXF".toList⟩, ⟨['X'], []⟩])
  obtain ⟨hwhole, -, -, hsum, -⟩ := looking_up_is_homomorphic
    (RuleTable.ofRules [⟨['F'], "FXF".toList⟩, ⟨['X'], []⟩]) hstrategy 2 (.seed 0)
  refine ⟨_, rfl, htext, hstrategy, by decide, by decide, rfl, rfl, ?_, hwhole htext _ _⟩
  exact hsum 6 0 (by decide) (by decide) ['F'] ['X', 'X'] _ _ rfl rfl

end Lindenmayer
