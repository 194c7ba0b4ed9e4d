import Mathlib.Data.Nat.Basic
import Mathlib.Tactic.Push
import Mathlib.Tactic.Ring

/-!
# A 32-bit millisecond clock and its deadlines

A microcontroller counts milliseconds in an unsigned 32-bit word that wraps
about every 49.7 days, and compares stamps of that clock by the sign of their
32-bit difference. Here real time is an unbounded number of milliseconds, the
word is what is left of it, and the question is what the comparison says about
real time: it is right exactly while the two instants are less than `2 ^ 31`
apart, whatever number of wraps lies between boot and either of them.
-/

namespace Wrap

/-- What a 32-bit millisecond counter shows at real time `t`. -/
def millis (t : Nat) : UInt32 := UInt32.ofNat t

@[simp] theorem toNat_millis (t : Nat) : (millis t).toNat = t % 2 ^ 32 :=
  UInt32.toNat_ofNat

/-- Adding a delay in the word is adding it in real time. -/
theorem millis_add (t : Nat) (d : UInt32) : millis t + d = millis (t + d.toNat) := by
  apply UInt32.toNat_inj.mp
  rw [UInt32.toNat_add, toNat_millis, toNat_millis]
  omega

/-- `(int32_t) (now - deadline) >= 0`, the wrap-tolerant test that a deadline
has been reached. -/
def reached (now deadline : UInt32) : Bool := decide (0 ≤ (now - deadline).toInt32)

/-- `now - since >= wait`, the unsigned test that a wait has elapsed. -/
def elapsed (now since wait : UInt32) : Bool := decide (wait ≤ now - since)

theorem nonneg_toInt32 (x : UInt32) : 0 ≤ x.toInt32 ↔ x.toNat < 2 ^ 31 := by
  rw [Int32.le_iff_toInt_le]
  show (0 : Int) ≤ x.toBitVec.toInt ↔ _
  rw [BitVec.toInt_eq_toNat_cond, UInt32.toNat_toBitVec]
  have := x.toNat_lt
  split <;> omega

/-- The signed test in terms of the two counters. -/
theorem reached_iff (now deadline : UInt32) :
    reached now deadline = true ↔ (now - deadline).toNat < 2 ^ 31 := by
  rw [reached, decide_eq_true_iff, nonneg_toInt32]

/-- At or past the deadline the test passes exactly while the time gone by
since, counted modulo the wrap, is in the lower half of the word. -/
theorem reached_of_le {t g : Nat} (h : g ≤ t) :
    reached (millis t) (millis g) = true ↔ (t - g) % 2 ^ 32 < 2 ^ 31 := by
  rw [reached_iff, UInt32.toNat_sub, toNat_millis, toNat_millis]
  omega

/-- Before a deadline that is less than half a wrap away the test fails. -/
theorem not_reached_of_lt {t g : Nat} (h : t < g) (hgap : g - t < 2 ^ 31) :
    reached (millis t) (millis g) = false := by
  rw [← Bool.not_eq_true, reached_iff, UInt32.toNat_sub, toNat_millis, toNat_millis]
  omega

/-- The form in which a scheduler uses it: a deadline set less than half a
wrap ahead is never taken for reached too early, however long ago it was set. -/
theorem le_of_reached {t g : Nat} (hr : reached (millis t) (millis g) = true)
    (hgap : g < t + 2 ^ 31) : g ≤ t := by
  by_contra hlt
  rw [not_reached_of_lt (by omega) (by omega)] at hr
  cases hr

/-- The signed test between any two instants. -/
theorem reached_millis (t g : Nat) :
    reached (millis t) (millis g) = true ↔ (2 ^ 32 - g % 2 ^ 32 + t % 2 ^ 32) % 2 ^ 32 < 2 ^ 31 := by
  rw [reached_iff, UInt32.toNat_sub, toNat_millis, toNat_millis]

/-- A look at `t` does not miss the deadline `g`: past it, the time gone by is
in the lower half of the word. -/
def InTime (g t : Nat) : Prop := g ≤ t → (t - g) % 2 ^ 32 < 2 ^ 31

/-- A deadline set at most half a wrap ahead is told apart from the instants
before it by exactly the looks that are in time. -/
theorem reached_iff_le {t₀ t g : Nat} (hset : t₀ ≤ t) (hahead : g ≤ t₀ + 2 ^ 31) :
    (reached (millis t) (millis g) = true ↔ g ≤ t) ↔ InTime g t := by
  rw [reached_millis, InTime]
  by_cases hle : g ≤ t
  · have hsame : (2 ^ 32 - g % 2 ^ 32 + t % 2 ^ 32) % 2 ^ 32 = (t - g) % 2 ^ 32 := by omega
    rw [hsame]
    simp only [hle, iff_true, true_implies]
  · have hearly : ¬ (2 ^ 32 - g % 2 ^ 32 + t % 2 ^ 32) % 2 ^ 32 < 2 ^ 31 := by omega
    simp only [hle, hearly, false_implies]

/-- Only such a deadline is: if the looks from `t₀` on take a stamp `d` ahead
for the deadline `w` ahead, it is that deadline, at most half a wrap away. -/
theorem eq_of_reached_iff {t₀ d w : Nat} (hd : d < 2 ^ 32) (hw : 0 < w)
    (h : ∀ t, t₀ ≤ t → InTime (t₀ + w) t →
      (reached (millis t) (millis (t₀ + d)) = true ↔ t₀ + w ≤ t)) : d = w ∧ w ≤ 2 ^ 31 := by
  have hnow := h t₀ (Nat.le_refl _) fun hle => absurd hle (by omega)
  rw [reached_millis] at hnow
  have hlow : 0 < d ∧ d ≤ 2 ^ 31 := by omega
  have hstamp := h (t₀ + d) (by omega) fun hle => by omega
  have hdue := h (t₀ + w) (by omega) fun hle => by omega
  rw [reached_millis] at hstamp hdue
  have hle : w ≤ d := by omega
  omega

/-- The unsigned test sees the time gone by modulo the wrap. -/
theorem elapsed_of_le {t s : Nat} {wait : UInt32} (h : s ≤ t) :
    elapsed (millis t) (millis s) wait = true ↔ wait.toNat ≤ (t - s) % 2 ^ 32 := by
  rw [elapsed, decide_eq_true_iff, UInt32.le_iff_toNat_le, UInt32.toNat_sub, toNat_millis,
    toNat_millis]
  omega

end Wrap
