/-
  Equally many words for every index.

  With `k` candidates a word `w` stands for the product `w * k`: its high half is the index that the
  word selects, and it is ACCEPTED unless its low half is below the remainder of `2 ^ 32` by `k`.  So
  the accepted words of the index `i` are those whose products lie between `i * 2 ^ 32`, with the
  remainder on top, and `(i + 1) * 2 ^ 32`.  What the remainder leaves of the `2 ^ 32` numbers from the
  one to the other is a multiple of `k`, and so there are `2 ^ 32 / k` products among them, wherever
  they begin (`ncard_accepted_index`).  A production that stands several times in a list of candidates
  has that many words for each time (`ncard_accepted_member`).
-/
import Lindenmayer.Random.Permuted
import Mathlib.Data.List.Induction
import Mathlib.Data.Set.Card
import Mathlib.Order.Interval.Finset.Nat

namespace Lindenmayer.Random

/-- The index among `k` candidates that a word stands for. -/
def index (k : Nat) (w : UInt32) : Nat :=
  w.toNat * k / wordCount

/-- The word is taken where there are `k` candidates. -/
def Accepted (k : Nat) (w : UInt32) : Prop :=
  (wordCount - k) % k ≤ w.toNat * k % wordCount

theorem index_lt {k : Nat} (hk : 0 < k) (w : UInt32) : index k w < k := by
  have hlt : w.toNat * k < wordCount * k := Nat.mul_lt_mul_of_pos_right w.toNat_lt hk
  exact Nat.div_lt_of_lt_mul hlt

theorem select_of_accepted {k : Nat} (hk : 0 < k) {w : UInt32} (h : Accepted k w) :
    select k hk w = some ⟨index k w, index_lt hk w⟩ :=
  if_neg (Nat.not_lt.mpr h)

theorem select_of_not_accepted {k : Nat} (hk : 0 < k) {w : UInt32} (h : ¬ Accepted k w) :
    select k hk w = none :=
  if_pos (Nat.not_le.mp h)

/-- The last word is accepted whatever the number of candidates. -/
theorem accepted_last {k : Nat} (hk : 0 < k) (hle : k ≤ wordCount) : Accepted k 0xFFFFFFFF := by
  have hlow : (0xFFFFFFFF : UInt32).toNat * k % wordCount = wordCount - k := by
    have hproduct : (0xFFFFFFFF : UInt32).toNat * k = (wordCount - k) + wordCount * (k - 1) := by
      show 0xFFFFFFFF * k = _
      unfold wordCount at *
      omega
    rw [hproduct, Nat.add_mul_mod_self_left]
    exact Nat.mod_eq_of_lt (by unfold wordCount at *; omega)
  rw [Accepted, hlow]
  exact Nat.mod_le _ _

/-! ## How many words -/

theorem finite_words (s : Set UInt32) : s.Finite := by
  have himage : (UInt32.toNat '' s).Finite := by
    refine (Finset.range wordCount).finite_toSet.subset ?_
    rintro n ⟨w, -, rfl⟩
    exact Finset.mem_coe.mpr (Finset.mem_range.mpr w.toNat_lt)
  exact himage.of_finite_image (Function.Injective.injOn fun v w h => UInt32.toNat_inj.mp h)

/-- The accepted words of an index are those whose product lies in a stretch of `2 ^ 32` numbers less
    the remainder. -/
theorem accepted_index_iff {k i : Nat} (hk : 0 < k) (hle : k ≤ wordCount) {w : UInt32} :
    Accepted k w ∧ index k w = i ↔
      i * wordCount + wordCount % k ≤ k * w.toNat ∧
        k * w.toNat < i * wordCount + wordCount % k + k * (wordCount / k) := by
  have hrest : (wordCount - k) % k = wordCount % k := (Nat.mod_eq_sub_mod hle).symm
  have hsplit : wordCount % k + k * (wordCount / k) = wordCount := Nat.mod_add_div _ _
  have hlt : wordCount % k < wordCount := lt_of_lt_of_le (Nat.mod_lt _ hk) hle
  rw [Accepted, index, hrest, Nat.add_assoc, hsplit, Nat.mul_comm w.toNat k]
  generalize k * w.toNat = product at *
  generalize wordCount % k = rest at *
  unfold wordCount at *
  omega

/-- The numbers whose multiples of `k` lie in a stretch of `k * m` follow each other. -/
theorem mul_mem_stretch_iff {k : Nat} (hk : 0 < k) (a m n : Nat) :
    a ≤ k * n ∧ k * n < a + k * m ↔ n ∈ Finset.Ico ((a + (k - 1)) / k) ((a + (k - 1)) / k + m) := by
  -- a multiple is at least a bound if its number is at least the quotient of the bound, rounded up
  have hfrom : ∀ b, (b + (k - 1)) / k ≤ n ↔ b ≤ k * n := by
    intro b
    rw [Nat.div_le_iff_le_mul_add_pred hk]
    omega
  have hupto : (a + (k - 1)) / k + m = (a + k * m + (k - 1)) / k := by
    rw [Nat.add_right_comm, Nat.add_mul_div_left _ _ hk]
  rw [Finset.mem_Ico, hfrom, hupto, ← Nat.not_le (b := n), hfrom, Nat.not_le]

/-- **Every index has the same number of accepted words.** -/
theorem ncard_accepted_index {k i : Nat} (hk : 0 < k) (hle : k ≤ wordCount) (hi : i < k) :
    {w : UInt32 | Accepted k w ∧ index k w = i}.ncard = wordCount / k := by
  obtain ⟨a, ha⟩ : ∃ a, a = i * wordCount + wordCount % k := ⟨_, rfl⟩
  have hend : a + k * (wordCount / k) = (i + 1) * wordCount := by
    rw [ha, Nat.add_assoc, Nat.mod_add_div, Nat.add_one_mul]
  have himage : UInt32.toNat '' {w : UInt32 | Accepted k w ∧ index k w = i} =
      Finset.Ico ((a + (k - 1)) / k) ((a + (k - 1)) / k + wordCount / k) := by
    ext n
    rw [Finset.mem_coe, ← mul_mem_stretch_iff hk]
    constructor
    · rintro ⟨w, hw, rfl⟩
      rw [ha]
      exact (accepted_index_iff hk hle).mp hw
    · rintro ⟨hfrom, hupto⟩
      -- the stretch ends before the products of what is no word begin
      have hn : n < wordCount := by
        have hlast : (i + 1) * wordCount ≤ k * wordCount := Nat.mul_le_mul_right wordCount hi
        exact Nat.lt_of_mul_lt_mul_left (by omega : k * n < k * wordCount)
      have hword : (UInt32.ofNat n).toNat = n := UInt32.toNat_ofNat_of_lt' hn
      refine ⟨UInt32.ofNat n, (accepted_index_iff hk hle).mpr ?_, hword⟩
      rw [hword, ← ha]
      exact ⟨hfrom, hupto⟩
  rw [← Set.ncard_image_of_injective _ fun v w h => UInt32.toNat_inj.mp h, himage,
    Set.ncard_coe_finset, Nat.card_Ico, Nat.add_sub_cancel_left]

/-- A longer list has its new member behind those it had. -/
theorem getElem?_concat_eq_some_iff {α : Type} {xs : List α} {x y : α} {i : Nat} :
    (xs ++ [y])[i]? = some x ↔ xs[i]? = some x ∨ i = xs.length ∧ y = x := by
  rcases Nat.lt_trichotomy i xs.length with hlt | rfl | hgt
  · rw [List.getElem?_append_left hlt]
    exact (or_iff_left fun h => Nat.ne_of_lt hlt h.1).symm
  · simp
  · have hnone : (xs ++ [y])[i]? = none := List.getElem?_eq_none (by simpa using hgt)
    rw [hnone, List.getElem?_eq_none (Nat.le_of_lt hgt)]
    simpa using fun h => absurd h (Nat.ne_of_gt hgt)

/-- **A member of a list has as many accepted words as it stands in the list**, times the words of one
    index.  Induction over the list, whose last member adds the words of its own index. -/
theorem ncard_accepted_member {α : Type} {k : Nat} (hk : 0 < k) (hle : k ≤ wordCount) (xs : List α)
    (hxs : xs.length ≤ k) (x : α) [DecidablePred fun y => y = x] :
    {w : UInt32 | Accepted k w ∧ xs[index k w]? = some x}.ncard =
      xs.countP (fun y => y = x) * (wordCount / k) := by
  induction xs using List.reverseRecOn with
  | nil => simp
  | append_singleton xs y ih =>
    rw [List.length_append, List.length_singleton] at hxs
    have hsplit : {w : UInt32 | Accepted k w ∧ (xs ++ [y])[index k w]? = some x} =
        {w : UInt32 | Accepted k w ∧ xs[index k w]? = some x} ∪
          {w : UInt32 | (Accepted k w ∧ index k w = xs.length) ∧ y = x} := by
      ext w
      show _ ∧ _ ↔ (_ ∧ _) ∨ (_ ∧ _) ∧ _
      rw [getElem?_concat_eq_some_iff, and_or_left, and_assoc]
    have hdisjoint : Disjoint {w : UInt32 | Accepted k w ∧ xs[index k w]? = some x}
        {w : UInt32 | (Accepted k w ∧ index k w = xs.length) ∧ y = x} := by
      refine Set.disjoint_left.mpr ?_
      rintro w ⟨-, hmem⟩ ⟨⟨-, hindex⟩, -⟩
      rw [hindex, List.getElem?_eq_none (Nat.le_refl _)] at hmem
      nomatch hmem
    rw [hsplit, Set.ncard_union_eq hdisjoint (finite_words _) (finite_words _), ih (by omega),
      List.countP_append, Nat.add_mul, List.countP_singleton]
    by_cases hy : y = x
    · simp only [hy, and_true, decide_true, if_true, Nat.one_mul]
      rw [ncard_accepted_index hk hle (by omega)]
    · simp [hy]

/-- The indices share the accepted words among them. -/
theorem ncard_accepted {k : Nat} (hk : 0 < k) (hle : k ≤ wordCount) :
    {w : UInt32 | Accepted k w}.ncard = k * (wordCount / k) := by
  have hmember := ncard_accepted_member hk hle (List.replicate k ()) (by simp) ()
  rw [List.countP_replicate, if_pos (by simp)] at hmember
  rw [← hmember]
  congr
  ext w
  simp [index_lt hk w]

end Lindenmayer.Random
