/-
  Every state comes round.

  The congruence of the generator multiplies by one more than a multiple of four and adds an odd
  number.  Then it has full period: from every state it reaches every other one, within `2 ^ 128` steps
  (`exists_iterate_eq`).  The argument doubles the steps.  What `2 ^ k` of them do to a state is to add
  an odd multiple of `2 ^ k` to it, up to a multiple of `2 ^ (k + 2)` (`iterate_congruence`).  So where a
  state is reached up to a multiple of `2 ^ k` it is reached up to one of `2 ^ (k + 1)`, by the same
  number of steps or by `2 ^ k` more; and a multiple of `2 ^ 128` is nothing.

  The words that the generator hands out are the halves of what its states give, two for each state,
  and so a word comes within `2 ^ 129` if there is a state that gives it (`exists_after_last`).
-/
import Lindenmayer.Random.Permuted
import Mathlib.Data.BitVec
import Mathlib.Logic.Function.Iterate
import Mathlib.Tactic.Ring

namespace Lindenmayer.Random

/-! ## Congruences with full period -/

/-- One step of a linear congruence. -/
def congruence (a c x : BitVec 128) : BitVec 128 :=
  x * a + c

/-- A state is twice another one, or one more than that. -/
theorem exists_half (x : BitVec 128) : ∃ y, x = 2 * y ∨ x = 2 * y + 1 := by
  refine ⟨(x.toNat / 2 : ℕ), ?_⟩
  have hx : x = ((2 * (x.toNat / 2) + x.toNat % 2 : ℕ) : BitVec 128) := by
    rw [Nat.div_add_mod, BitVec.natCast_eq_ofNat, BitVec.ofNat_toNat, BitVec.setWidth_eq]
  push_cast at hx
  rcases Nat.mod_two_eq_zero_or_one x.toNat with h | h
  · left
    rw [h] at hx
    simpa using hx
  · right
    rw [h] at hx
    simpa using hx

section

variable {a c : BitVec 128} (ha : ∃ t, a = 1 + 4 * t) (hc : Odd c)

include ha hc

/-- What `2 ^ k` steps do to a state. -/
theorem iterate_congruence (k : ℕ) : ∃ t s : BitVec 128, ∀ x,
    (congruence a c)^[2 ^ k] x = x + 2 ^ k * (2 * s + 1) + 2 ^ (k + 2) * t * x := by
  induction k with
  | zero =>
    obtain ⟨t, rfl⟩ := ha
    obtain ⟨s, rfl⟩ := hc
    refine ⟨t, s, fun x => ?_⟩
    show x * (1 + 4 * t) + (2 * s + 1) = _
    ring
  | succ k ih =>
    obtain ⟨t, s, h⟩ := ih
    refine ⟨t + 2 ^ (k + 1) * t * t, s + 2 ^ k * t * (2 * s + 1), fun x => ?_⟩
    rw [pow_succ, mul_two, Function.iterate_add_apply, h, h]
    ring

/-- Every state is reached up to a multiple of `2 ^ k`, within `2 ^ k` steps. -/
theorem exists_iterate_add_two_pow (x y : BitVec 128) (k : ℕ) :
    ∃ n < 2 ^ k, ∃ m, (congruence a c)^[n] x = y + 2 ^ k * m := by
  induction k with
  | zero => exact ⟨0, Nat.one_pos, x - y, by simp⟩
  | succ k ih =>
    obtain ⟨n, hn, m, h⟩ := ih
    have hdouble : 2 ^ (k + 1) = 2 ^ k + 2 ^ k := by rw [pow_succ, mul_two]
    obtain ⟨q, rfl | rfl⟩ := exists_half m
    · exact ⟨n, by omega, q, by rw [h]; ring⟩
    · -- the next bit is wrong, and `2 ^ k` more steps set it right
      obtain ⟨t, s, hstep⟩ := iterate_congruence ha hc k
      refine ⟨2 ^ k + n, by omega, q + s + 1 + 2 * t * (congruence a c)^[n] x, ?_⟩
      rw [Function.iterate_add_apply, hstep, h]
      ring

/-- **Every state is reached from every other one.** -/
theorem exists_iterate_eq (x y : BitVec 128) : ∃ n < 2 ^ 128, (congruence a c)^[n] x = y := by
  obtain ⟨n, hn, m, h⟩ := exists_iterate_add_two_pow ha hc x y 128
  have hnothing : (2 : BitVec 128) ^ 128 = 0 := by decide +kernel
  exact ⟨n, hn, by rw [h, hnothing, zero_mul, add_zero]⟩

end

/-! ## The words of a generator -/

namespace Permuted

theorem multiplier_eq : ∃ t, multiplier = 1 + 4 * t :=
  ⟨multiplier >>> 2, by decide +kernel⟩

/-- The generator after it has handed out so many words. -/
def after (g : Permuted) : ℕ → Permuted
  | 0 => g
  | n + 1 => after g.next.2 n

theorem after_succ (g : Permuted) (n : ℕ) : g.after (n + 1) = g.next.2.after n := rfl

theorem after_succ_succ (g : Permuted) (n : ℕ) : g.after (n + 2) = g.next.2.next.2.after n := rfl

theorem waiting_step (g : Permuted) : g.step.waiting = g.waiting := by
  cases g
  rfl

theorem iterate_step (g : Permuted) (n : ℕ) :
    step^[n] g = { g with state := (congruence multiplier g.increment)^[n] g.state } := by
  induction n with
  | zero => rfl
  | succ n ih =>
    rw [Function.iterate_succ_apply', Function.iterate_succ_apply', ih]
    rfl

theorem increment_step (g : Permuted) : g.step.increment = g.increment := by
  cases g
  rfl

/-- The states run through the congruence. -/
theorem state_step_iterate (g : Permuted) (n : ℕ) :
    (step^[n] g).step.state = (congruence multiplier g.increment)^[n] g.step.state := by
  have hcomm : (step^[n] g).step = step^[n] g.step :=
    (Function.iterate_succ_apply' step n g).symm.trans (Function.iterate_succ_apply step n g)
  rw [hcomm, iterate_step, increment_step]

variable {g : Permuted}

/-- If no half word waits, two words are handed out for one step, and then none waits again. -/
theorem next_next (h : g.waiting = none) : g.next.2.next.2 = g.step := by
  obtain ⟨state, increment, waiting⟩ := g
  subst h
  rfl

/-- The first of the two is the low half of what the next state gives. -/
theorem next_of_waiting_none (h : g.waiting = none) :
    g.next.1 = UInt32.ofBitVec ((word g.step.state).extractLsb' 0 32) := by
  unfold next
  rw [h]

theorem after_two_mul (h : g.waiting = none) (n : ℕ) : g.after (2 * n) = step^[n] g := by
  induction n generalizing g with
  | zero => rfl
  | succ n ih =>
    have hwaiting : g.step.waiting = none := (waiting_step g).trans h
    calc g.after (2 * (n + 1))
        = g.next.2.next.2.after (2 * n) := after_succ_succ g (2 * n)
      _ = g.step.after (2 * n) := congrArg (fun g => after g (2 * n)) (next_next h)
      _ = step^[n] g.step := ih hwaiting
      _ = step^[n + 1] g := (Function.iterate_succ_apply step n g).symm

/-- From a generator without a waiting half word the last word comes round. -/
theorem exists_after_last_of_none (hodd : Odd g.increment) (h : g.waiting = none) :
    ∃ n < 2 ^ 128, (g.after (2 * n)).next.1 = 0xFFFFFFFF := by
  obtain ⟨n, hn, hstate⟩ := exists_iterate_eq multiplier_eq hodd g.step.state 0xFFFFFFFF
  have hstep : (step^[n] g).step.state = 0xFFFFFFFF := (state_step_iterate g n).trans hstate
  have hwaiting : (step^[n] g).waiting = none := by
    rw [iterate_step]
    exact h
  refine ⟨n, hn, ?_⟩
  rw [after_two_mul h, next_of_waiting_none hwaiting, hstep]
  decide +kernel

/-- **The last word comes round**, whatever the state of the generator. -/
theorem exists_after_last (hodd : Odd g.increment) :
    ∃ n < 2 ^ 129, (g.after n).next.1 = 0xFFFFFFFF := by
  cases hwaiting : g.waiting with
  | none =>
    obtain ⟨n, hn, hword⟩ := exists_after_last_of_none hodd hwaiting
    exact ⟨2 * n, by omega, hword⟩
  | some half =>
    -- the waiting half word is handed out first
    have hnext : g.next.2 = { g with waiting := none } := by
      unfold next
      rw [hwaiting]
    obtain ⟨n, hn, hword⟩ := exists_after_last_of_none (g := { g with waiting := none }) hodd rfl
    refine ⟨2 * n + 1, by omega, ?_⟩
    rw [after_succ, hnext]
    exact hword

end Permuted

end Lindenmayer.Random
