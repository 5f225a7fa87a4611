/-
  How often each symbol occurs.

  The counts of a word forget the order of its symbols, and where symbols are looked up this order
  has no part in the counts of the image: they are the sum of the counts of what the symbols are
  looked up as, one summand for each occurrence.  So the counts of the image are a LINEAR function
  of those of the word (`RuleTable.growth`), and the counts after `n` passes are its `n`-th iterate.

  Whether a pass gets through depends on the symbols of its word and on the length of the image, and
  on no order either.  So two words with the same symbols in another order get through the same
  passes with the same lengths (`runFrom_looking_perm`), although in the middle of a pass the bound
  is compared with prefixes that have nothing to do with each other.
-/
import Mathlib.Algebra.BigOperators.Group.Finset.Basic
import Mathlib.Data.Finsupp.Multiset
import Mathlib.LinearAlgebra.Finsupp.LinearCombination
import Lindenmayer.Proofs.Derivation.Lookup

namespace Lindenmayer

/-! ## Counts -/

/-- How often each symbol occurs in a word. -/
noncomputable def counts (w : Word) : Symbol →₀ Nat :=
  Multiset.toFinsupp (w : Multiset Symbol)

@[simp] theorem counts_apply (w : Word) (c : Symbol) : counts w c = w.count c := by
  rw [counts, Multiset.toFinsupp_apply, Multiset.coe_count]

theorem counts_append (u v : Word) : counts (u ++ v) = counts u + counts v := by
  rw [counts, ← Multiset.coe_add, map_add]
  rfl

theorem counts_cons (c : Symbol) (w : Word) : counts (c :: w) = Finsupp.single c 1 + counts w := by
  have hsingle : counts [c] = Finsupp.single c 1 := Multiset.toFinsupp_singleton c
  rw [← hsingle, ← counts_append]
  rfl

namespace RuleTable

variable {σ α : Type} [BEq α] [RulePart α] {t : RuleTable α}

/-- What looking up makes of the counts of a word: every occurrence of a symbol counts as often as
    the symbols of what it is looked up as. -/
noncomputable def growth (t : RuleTable α) : (Symbol →₀ Nat) →ₗ[Nat] (Symbol →₀ Nat) :=
  Finsupp.linearCombination Nat fun c => counts (RulePart.toWord (t.lookup (RulePart.ofWord [c])))

/-- **One pass**: the counts of the image are a linear function of those of the word. -/
theorem growth_counts (t : RuleTable α) (w : Word) : t.growth (counts w) = counts (t.image w) := by
  induction w with
  | nil => exact map_zero t.growth
  | cons c w ih =>
    rw [counts_cons, map_add, ih, image_cons, counts_append, growth,
      Finsupp.linearCombination_single, one_smul]

/-- **Any number of passes.** -/
theorem iterate_growth_counts (t : RuleTable α) (n : Nat) (w : Word) :
    t.growth^[n] (counts w) = counts (t.image^[n] w) := by
  induction n with
  | zero => rfl
  | succ n ih =>
    rw [Function.iterate_succ_apply', Function.iterate_succ_apply', ih, growth_counts]

/-- The same pass in numbers, symbol by symbol. -/
theorem count_image (t : RuleTable α) (w : Word) (c : Symbol) :
    (t.image w).count c = ∑ s ∈ w.toFinset,
      w.count s * (RulePart.toWord (t.lookup (RulePart.ofWord [s]))).count c := by
  rw [image, List.count_flatMap, Finset.sum_list_map_count]
  rfl

/-! ## Other orders -/

theorem image_perm {u v : Word} (h : u.Perm v) : (t.image u).Perm (t.image v) :=
  h.flatMap_right _

/-- Whether a pass gets through is no matter of order. -/
theorem Passes.perm {bound : Option Int} {u v : Word} (hu : t.Passes bound u) (h : u.Perm v) :
    t.Passes bound v := by
  refine ⟨?_, ?_⟩
  · intro c hc
    exact hu.spells c (h.mem_iff.mpr hc)
  · intro m hm hne
    have hnonempty : u ≠ [] := by
      rintro rfl
      exact hne h.symm.eq_nil
    rw [← (image_perm h).length_eq]
    exact hu.fits m hm hnonempty

/-- **Two words with the same symbols**: the passes over one and over the other get through alike,
    with the same lengths, and the words that they write have the same symbols again.  Induction
    over the passes. -/
theorem runFrom_looking_perm (t : RuleTable α) (bound : Option Int) (passes : Nat) {u v : Word}
    (h : u.Perm v) (lengths : Array Nat) (state : σ) :
    (runFrom t.looking bound passes ⟨u, lengths, state⟩).lengths =
        (runFrom t.looking bound passes ⟨v, lengths, state⟩).lengths ∧
      ((∃ u' v' : Word, u'.Perm v' ∧
          (runFrom t.looking bound passes ⟨u, lengths, state⟩).outcome = .ok u' ∧
          (runFrom t.looking bound passes ⟨v, lengths, state⟩).outcome = .ok v') ∨
        ∃ cause cause' : Error,
          (runFrom t.looking bound passes ⟨u, lengths, state⟩).outcome = .error cause ∧
          (runFrom t.looking bound passes ⟨v, lengths, state⟩).outcome = .error cause') := by
  induction passes generalizing u v lengths with
  | zero => exact ⟨rfl, Or.inl ⟨u, v, h, rfl, rfl⟩⟩
  | succ passes ih =>
    rw [runFrom, runFrom]
    dsimp only
    rcases pass_looking_cases t bound (lengths.size + 1) u state with
      ⟨hu, huok⟩ | ⟨hu, cause, huerr⟩
    · rcases pass_looking_cases t bound (lengths.size + 1) v state with
        ⟨-, hvok⟩ | ⟨hv, -⟩
      · rw [huok, hvok]
        dsimp only
        rw [(image_perm h).length_eq]
        exact ih (image_perm h) _
      · exact absurd (hu.perm h) hv
    · rcases pass_looking_cases t bound (lengths.size + 1) v state with
        ⟨hv, -⟩ | ⟨-, cause', hverr⟩
      · exact absurd (hv.perm h.symm) hu
      · rw [huerr, hverr]
        exact ⟨rfl, Or.inr ⟨cause, cause', rfl, rfl⟩⟩

end RuleTable

end Lindenmayer
