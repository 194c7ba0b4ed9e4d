import Mathlib.Algebra.Order.Ring.Nat
import Mathlib.Order.MinMax
import Mathlib.Tactic.Ring

/-!
# Exponential backoff in a machine word

The wait after the `n`-th failure is meant to be the initial wait doubled `n`
times, up to a maximum. A program keeps the next wait in a word, doubles it
there and then clamps it, and does not clamp the one it begins with. With half
the range of the word called `half`, the two agree from the first wait on as
long as the initial wait is within the maximum and no wait that is doubled
reaches `half`: one that does is doubled to less than it was, the wait `half`
itself to nothing.
-/

namespace Backoff

variable {half initial max n m : Nat}

/-- The wait after `n` failures. -/
def wait (initial max n : Nat) : Nat := min (initial * 2 ^ n) max

/-- What the word holds after `n` failures, doubled before it is clamped. -/
def delay (half initial max : Nat) : Nat → Nat
  | 0 => initial
  | n + 1 => min (delay half initial max n * 2 % (2 * half)) max

theorem wait_zero (h : initial ≤ max) : wait initial max 0 = initial := by
  rw [wait, Nat.pow_zero, Nat.mul_one, Nat.min_eq_left h]

theorem wait_le_max : wait initial max n ≤ max := Nat.min_le_right _ _

theorem wait_succ : wait initial max (n + 1) = min (wait initial max n * 2) max := by
  rw [wait, wait, Nat.pow_succ, ← Nat.mul_assoc]
  omega

/-- Within a series no wait is shorter than the one before. -/
theorem wait_mono (h : n ≤ m) : wait initial max n ≤ wait initial max m := by
  induction h with
  | refl => exact Nat.le_refl _
  | @step k _ ih =>
      have hle : wait initial max k ≤ max := wait_le_max
      rw [wait_succ]
      omega

theorem wait_pos (hi : 0 < initial) (hle : initial ≤ max) : 0 < wait initial max n := by
  have h0 : wait initial max 0 ≤ wait initial max n := wait_mono (Nat.zero_le n)
  rw [wait_zero hle] at h0
  omega

/-- Doubling in the word is doubling while the wait is in the lower half. -/
theorem delay_eq_wait (hle : initial ≤ max) (hlt : ∀ j < n, wait initial max j < half) :
    delay half initial max n = wait initial max n := by
  induction n with
  | zero => exact (wait_zero hle).symm
  | succ n ih =>
      have hn := hlt n (Nat.lt_succ_self n)
      rw [delay, ih fun j hj => hlt j (Nat.lt_succ_of_lt hj), wait_succ,
        Nat.mod_eq_of_lt (by omega)]

/-- A wait of exactly `half` is doubled to nothing. -/
theorem delay_after_half (h : delay half initial max n = half) :
    delay half initial max (n + 1) = 0 := by
  rw [delay, h, Nat.mul_comm, Nat.mod_self, Nat.zero_min]

/-- A series is exact in the word, with waits of at most `half`, exactly when
it begins within the maximum and only its last wait may be `half`. -/
theorem series_exact_iff :
    (∀ j ≤ n, 0 < wait initial max j ∧ delay half initial max j = wait initial max j ∧
        wait initial max j ≤ half) ↔
      0 < initial ∧ initial ≤ max ∧ wait initial max n ≤ half ∧
        ∀ j < n, wait initial max j < half := by
  constructor
  · intro h
    obtain ⟨hpos, hzero, -⟩ := h 0 (Nat.zero_le n)
    rw [delay, wait, Nat.pow_zero, Nat.mul_one] at hzero
    rw [wait, Nat.pow_zero, Nat.mul_one] at hpos
    refine ⟨by omega, by omega, (h n (Nat.le_refl n)).2.2, ?_⟩
    intro j hj
    obtain ⟨-, heq, hhalf⟩ := h j (Nat.le_of_lt hj)
    obtain ⟨hpos', heq', -⟩ := h (j + 1) hj
    by_contra hlt
    have hd := delay_after_half (heq.trans (by omega))
    omega
  · rintro ⟨hi, hle, hn, hlt⟩ j hj
    have hmono : wait initial max j ≤ wait initial max n := wait_mono hj
    refine ⟨wait_pos hi hle, delay_eq_wait hle ?_, by omega⟩
    intro k hk
    exact hlt k (Nat.lt_of_lt_of_le hk hj)

end Backoff
