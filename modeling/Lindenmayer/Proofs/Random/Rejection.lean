/-
  Choices that come to an end.

  A choice draws words until one is accepted, but no more than a bound.  `Takes k g w g'` leaves the
  bound out: it says that `w` is the first of all the words of `g` that is accepted, and `g'` what is
  left of the generator then.  The last word is accepted whatever there is to choose from, and comes
  within the bound if the increment is odd; so some word is taken (`exists_takes`), and the choice is
  the index that the word stands for (`Takes.choose_eq`).  The increment of every generator that is made
  from a seed is odd, and stays so.
-/
import Lindenmayer.Proofs.Random.Period
import Lindenmayer.Proofs.Random.Range

namespace Lindenmayer.Random.Permuted

/-! ## Odd increments -/

theorem increment_next (g : Permuted) : g.next.2.increment = g.increment := by
  obtain ⟨state, increment, waiting | half⟩ := g
  · rfl
  · rfl

theorem increment_after (g : Permuted) (n : ℕ) : (g.after n).increment = g.increment := by
  induction n generalizing g with
  | zero => rfl
  | succ n ih => rw [after_succ, ih, increment_next]

/-- A number that is shifted up, with a one below it, is odd. -/
theorem odd_shiftLeft_or_one (x : BitVec 128) : Odd (x <<< 1 ||| 1) := by
  have hdisjoint : x <<< 1 &&& 1 = 0 := by
    ext i hi
    cases i <;> simp [BitVec.getElem_one]
  refine ⟨x, ?_⟩
  rw [← BitVec.add_eq_or_of_and_eq_zero _ _ hdisjoint, BitVec.shiftLeft_eq_mul_twoPow, mul_comm]
  rfl

/-- **The increment of a seed is odd.** -/
theorem odd_increment_ofSeed (seed : ℕ) : Odd (ofSeed seed).increment := by
  unfold ofSeed
  split
  · rw [increment_step]
    exact odd_shiftLeft_or_one _
  · exact odd_one

/-! ## The word that is taken -/

/-- The first accepted word of a generator is this one, where there are `k` candidates, and leaves the
    generator as given. -/
def Takes (k : ℕ) (g : Permuted) (w : UInt32) (g' : Permuted) : Prop :=
  ∃ n, (g.after n).next = (w, g') ∧ Accepted k w ∧ ∀ m < n, ¬ Accepted k (g.after m).next.1

variable {k : ℕ} {g g' : Permuted} {w : UInt32}

theorem Takes.accepted (h : Takes k g w g') : Accepted k w := by
  obtain ⟨_, _, hacc, _⟩ := h
  exact hacc

/-- A word that waits is taken if it is accepted. -/
theorem takes_waiting (hw : Accepted k w) (hwaiting : g.waiting = some w) :
    Takes k g w { g with waiting := none } := by
  refine ⟨0, ?_, hw, fun m hm => absurd hm (Nat.not_lt_zero m)⟩
  show g.next = _
  unfold next
  rw [hwaiting]

/-- A generator with an odd increment has a word to take, within the bound. -/
theorem exists_takes (hk : 0 < k) (hle : k ≤ wordCount) (hodd : Odd g.increment) :
    ∃ w g', Takes k g w g' := by
  classical
  obtain ⟨n, -, hlast⟩ := exists_after_last hodd
  have hex : ∃ n, Accepted k (g.after n).next.1 := ⟨n, hlast ▸ accepted_last hk hle⟩
  exact ⟨_, _, Nat.find hex, rfl, Nat.find_spec hex, fun m hm => Nat.find_min hex hm⟩

/-- The generator that is left has the same increment. -/
theorem Takes.increment_eq (h : Takes k g w g') : g'.increment = g.increment := by
  obtain ⟨n, hnext, -, -⟩ := h
  rw [← increment_after g n, ← increment_next (g.after n), hnext]

/-- A choice among words of which the first accepted one is within the bound. -/
theorem choose_of_first (hk : 0 < k) {n bound : ℕ} (hn : n < bound) (hnext : (g.after n).next = (w, g'))
    (hacc : Accepted k w) (hrej : ∀ m < n, ¬ Accepted k (g.after m).next.1) :
    choose k hk bound g = (⟨index k w, index_lt hk w⟩, g') := by
  induction n generalizing g bound with
  | zero =>
    obtain ⟨bound, rfl⟩ := Nat.exists_eq_succ_of_ne_zero (Nat.ne_of_gt hn)
    have hfirst : g.next = (w, g') := hnext
    simp only [choose, hfirst, select_of_accepted hk hacc]
  | succ n ih =>
    obtain ⟨bound, rfl⟩ := Nat.exists_eq_succ_of_ne_zero (Nat.ne_zero_of_lt hn)
    have hfirst : ¬ Accepted k g.next.1 := hrej 0 n.succ_pos
    simp only [choose, select_of_not_accepted hk hfirst]
    exact ih (Nat.lt_of_succ_lt_succ hn) hnext fun m hm => hrej (m + 1) (Nat.succ_lt_succ hm)

/-- **A choice is the index of the word that is taken.** -/
theorem Takes.choose_eq (hk : 0 < k) (hle : k ≤ wordCount) (hodd : Odd g.increment)
    (h : Takes k g w g') : Chooser.choose g k hk = (⟨index k w, index_lt hk w⟩, g') := by
  obtain ⟨n, hnext, hacc, hrej⟩ := h
  obtain ⟨m, hm, hlast⟩ := exists_after_last hodd
  have hn : n ≤ m := Nat.not_lt.mp fun hlt => hrej m hlt (hlast ▸ accepted_last hk hle)
  have hbound : n < 1 <<< 129 := by
    rw [Nat.one_shiftLeft]
    exact Nat.lt_of_le_of_lt hn hm
  exact choose_of_first hk hbound hnext hacc hrej

end Lindenmayer.Random.Permuted
