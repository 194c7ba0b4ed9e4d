import Mathlib.Algebra.BigOperators.Group.Finset.Basic
import Mathlib.Algebra.Field.ZMod

/-!
# Cyclic checks as shift registers

A register of `w` bits shifts towards its least significant bit, and where a
one falls out the polynomial is added; the bits of a message enter at the
bottom, one before each shift. That is division by the polynomial in the
reflected form that serial protocols use, and nothing below speaks of
polynomials.

Two facts carry everything. The register is linear (`run_xor`), so whether an
altered message still passes depends on the alteration alone; and as long as no
more than `w` bits enter, entering them one at a time is adding them all at
once and then shifting (`run_eq_iterate`), so a register that can be shifted
back sees every alteration of at most `w` bits in a row. A polynomial with an
odd number of ones keeps count of the parity on top.
-/

namespace Crc

variable {w : Nat} {poly r s : BitVec w} {bits xs ys msg tail : List Bool}

def shift (poly r : BitVec w) : BitVec w :=
  if r.getLsbD 0 then (r >>> 1) ^^^ poly else r >>> 1

/-- A bit, at the bottom of a register. -/
def bit (b : Bool) : BitVec w := if b then 1#w else 0#w

/-- The bits of a message enter the register one after another. -/
def run (poly : BitVec w) (bits : List Bool) (r : BitVec w) : BitVec w :=
  bits.foldl (fun r b => shift poly (r ^^^ bit b)) r

/-- The register that holds `bits`, the first at the bottom. -/
def word : List Bool → BitVec w
  | [] => 0#w
  | b :: bits => bit b ^^^ (word bits <<< 1)

theorem run_cons {b : Bool} :
    run poly (b :: bits) r = run poly bits (shift poly (r ^^^ bit b)) := rfl

theorem run_append : run poly (xs ++ ys) r = run poly ys (run poly xs r) := List.foldl_append

theorem word_append : (word (xs ++ ys) : BitVec w) = word xs ^^^ (word ys <<< xs.length) := by
  induction xs with
  | nil => simp [word]
  | cons b xs ih =>
      rw [List.cons_append, word, word, ih, BitVec.shiftLeft_xor_distrib, ← BitVec.shiftLeft_add,
        List.length_cons, BitVec.xor_assoc]

/-! ## The register is linear -/

theorem bit_xor (a b : Bool) : (bit (a ^^ b) : BitVec w) = bit a ^^^ bit b := by
  cases a <;> cases b <;> simp [bit]

theorem shift_xor : shift poly (r ^^^ s) = shift poly r ^^^ shift poly s := by
  rw [shift, shift, shift, BitVec.getLsbD_xor, BitVec.ushiftRight_xor_distrib]
  cases r.getLsbD 0 with
  | false => cases s.getLsbD 0 <;> simp [BitVec.xor_assoc]
  | true =>
      cases s.getLsbD 0 with
      | false =>
          simp only [Bool.xor_false, if_true, Bool.false_eq_true, if_false]
          rw [BitVec.xor_assoc, BitVec.xor_comm (s >>> 1), BitVec.xor_assoc]
      | true =>
          simp only [Bool.xor_self, if_true, Bool.false_eq_true, if_false]
          rw [BitVec.xor_assoc, BitVec.xor_comm (s >>> 1), ← BitVec.xor_assoc poly,
            BitVec.xor_self, BitVec.zero_xor]

theorem run_xor (h : xs.length = ys.length) :
    run poly (List.zipWith xor xs ys) (r ^^^ s) = run poly xs r ^^^ run poly ys s := by
  induction xs generalizing ys r s with
  | nil =>
      rw [List.length_eq_zero_iff.mp h.symm]
      rfl
  | cons a xs ih =>
      cases ys with
      | nil => cases h
      | cons b ys =>
          have hstep : shift poly (r ^^^ s ^^^ bit (a ^^ b)) =
              shift poly (r ^^^ bit a) ^^^ shift poly (s ^^^ bit b) := by
            rw [← shift_xor, bit_xor]
            congr 1
            ac_rfl
          rw [List.zipWith_cons_cons, run_cons, hstep]
          exact ih (Nat.succ.inj h)

/-- Nothing differs where exclusive or leaves only zeros. -/
theorem eq_of_xor_false (hlen : xs.length = ys.length)
    (h : ∀ b ∈ List.zipWith xor xs ys, b = false) : xs = ys := by
  induction xs generalizing ys with
  | nil => exact (List.length_eq_zero_iff.mp hlen.symm).symm
  | cons a xs ih =>
      cases ys with
      | nil => cases hlen
      | cons b ys =>
          rw [List.zipWith_cons_cons, List.forall_mem_cons] at h
          have hab : a = b := by simpa using h.1
          rw [hab, ih (Nat.succ.inj hlen) h.2]

theorem iterate_shift_zero (n : Nat) : (shift poly)^[n] 0#w = 0#w := by
  have hzero : shift poly 0#w = 0#w := by simp [shift]
  exact Function.iterate_fixed hzero n

/-! ## Shifting back -/

theorem getLsbD_bit {b : Bool} {i : Nat} (hi : i < w) :
    (bit b : BitVec w).getLsbD i = (b && decide (i = 0)) := by
  cases b with
  | false => simp [bit]
  | true => simp [bit, BitVec.getLsbD_one, show 0 < w by omega]

theorem getLsbD_word {i : Nat} (hi : i < w) :
    (word bits : BitVec w).getLsbD i = bits.getD i false := by
  induction bits generalizing i with
  | nil => simp [word]
  | cons b bits ih =>
      rw [word, BitVec.getLsbD_xor, getLsbD_bit hi, BitVec.getLsbD_shiftLeft]
      cases i with
      | zero => simp
      | succ i =>
          have hrest := ih (show i < w by omega)
          simpa [hi] using hrest

/-- What was moved up without loss is moved down again. -/
theorem shift_shiftLeft (h : r.getLsbD (w - 1) = false) : shift poly (r <<< 1) = r := by
  have hlow : (r <<< 1).getLsbD 0 = false := by simp
  rw [shift, hlow, if_neg Bool.false_ne_true]
  apply BitVec.eq_of_getLsbD_eq
  intro i hi
  rw [BitVec.getLsbD_ushiftRight, BitVec.getLsbD_shiftLeft]
  by_cases htop : i = w - 1
  · rw [htop, h]
    simp [show ¬1 + (w - 1) < w by omega]
  · simp [show 1 + i < w by omega]

/-- At most `w` bits may as well be added all at once. -/
theorem run_eq_iterate (h : bits.length ≤ w) :
    run poly bits r = (shift poly)^[bits.length] (r ^^^ word bits) := by
  induction bits generalizing r with
  | nil => simp [run, word]
  | cons b bits ih =>
      rw [List.length_cons] at h
      have htop : (word bits : BitVec w).getLsbD (w - 1) = false := by
        rw [getLsbD_word (by omega), List.getD_eq_getElem?_getD,
          List.getElem?_eq_none (by omega), Option.getD_none]
      have hword : (word bits : BitVec w) = shift poly (word bits <<< 1) :=
        (shift_shiftLeft htop).symm
      have hadd : shift poly (r ^^^ bit b) ^^^ word bits = shift poly (r ^^^ word (b :: bits)) := by
        conv_lhs => rw [hword]
        rw [← shift_xor, word, BitVec.xor_assoc]
      rw [run_cons, ih (by omega), hadd, List.length_cons, Function.iterate_succ_apply]

/-- A register with the polynomial's top bit set can be shifted back. -/
theorem eq_zero_of_shift (hpoly : poly.getLsbD (w - 1) = true) (h : shift poly r = 0#w) :
    r = 0#w := by
  have hw : 0 < w := by
    apply Nat.pos_of_ne_zero
    rintro rfl
    simp at hpoly
  have hbit (i : Nat) : (shift poly r).getLsbD i = false := by rw [h, BitVec.getLsbD_zero]
  rw [shift] at hbit
  cases hlow : r.getLsbD 0 with
  | true =>
      have htop := hbit (w - 1)
      have hpast : r.getLsbD (1 + (w - 1)) = false := BitVec.getLsbD_of_ge r _ (by omega)
      rw [hlow, if_pos rfl, BitVec.getLsbD_xor, BitVec.getLsbD_ushiftRight, hpast, hpoly] at htop
      cases htop
  | false =>
      apply BitVec.eq_of_getLsbD_eq
      intro i hi
      rw [BitVec.getLsbD_zero]
      cases i with
      | zero => exact hlow
      | succ i =>
          have hup := hbit i
          rw [hlow, if_neg Bool.false_ne_true, BitVec.getLsbD_ushiftRight] at hup
          rwa [Nat.add_comm] at hup

theorem eq_zero_of_iterate (hpoly : poly.getLsbD (w - 1) = true) {n : Nat}
    (h : (shift poly)^[n] r = 0#w) : r = 0#w := by
  induction n with
  | zero => exact h
  | succ n ih =>
      rw [Function.iterate_succ_apply'] at h
      exact ih (eq_zero_of_shift hpoly h)

theorem xor_eq_zero : r ^^^ s = 0#w ↔ s = r := by
  rw [BitVec.xor_eq_zero_iff]
  exact eq_comm

/-- A message followed by `w` more bits leaves nothing in the register exactly
when these are what the message left there. -/
theorem run_check (hpoly : poly.getLsbD (w - 1) = true) (htail : tail.length = w) :
    run poly (msg ++ tail) r = 0#w ↔ word tail = run poly msg r := by
  rw [run_append, run_eq_iterate (Nat.le_of_eq htail)]
  constructor
  · intro h
    exact xor_eq_zero.mp (eq_zero_of_iterate hpoly h)
  · intro h
    rw [xor_eq_zero.mpr h]
    exact iterate_shift_zero _

/-! ## Bursts -/

theorem run_false (h : ∀ b ∈ bits, b = false) : run poly bits r = (shift poly)^[bits.length] r := by
  induction bits generalizing r with
  | nil => rfl
  | cons b bits ih =>
      have hb : b = false := h b (by simp)
      rw [run_cons, ih fun x hx => h x (by simp [hx]), hb, List.length_cons,
        Function.iterate_succ_apply]
      simp [bit]

/-- All ones lie within `n` positions in a row. -/
def Burst (n : Nat) (bits : List Bool) : Prop :=
  ∃ start, ∀ j, bits[j]? = some true → start ≤ j ∧ j < start + n

/-- No burst but the empty one goes unseen. -/
theorem burst_seen (hpoly : poly.getLsbD (w - 1) = true) (hburst : Burst w bits)
    (h : run poly bits 0#w = 0#w) : ∀ b ∈ bits, b = false := by
  obtain ⟨start, hin⟩ := hburst
  have hsplit : bits = bits.take start ++ ((bits.drop start).take w ++ bits.drop (start + w)) := by
    rw [← List.drop_drop, List.take_append_drop, List.take_append_drop]
  have hbefore : ∀ b ∈ bits.take start, b = false := by
    intro b hb
    obtain ⟨j, hj, rfl⟩ := List.getElem_of_mem hb
    rw [List.length_take] at hj
    by_contra htrue
    rw [Bool.not_eq_false, List.getElem_take] at htrue
    have := hin j (by rw [List.getElem?_eq_getElem (by omega), htrue])
    omega
  have hafter : ∀ b ∈ bits.drop (start + w), b = false := by
    intro b hb
    obtain ⟨j, hj, rfl⟩ := List.getElem_of_mem hb
    rw [List.length_drop] at hj
    by_contra htrue
    rw [Bool.not_eq_false, List.getElem_drop] at htrue
    have := hin (start + w + j) (by rw [List.getElem?_eq_getElem (by omega), htrue])
    omega
  have hlen : ((bits.drop start).take w).length ≤ w := by
    rw [List.length_take]
    omega
  have hwithin : ∀ b ∈ (bits.drop start).take w, b = false := by
    rw [hsplit, run_append, run_false hbefore, iterate_shift_zero, run_append, run_false hafter,
      run_eq_iterate hlen, BitVec.zero_xor] at h
    have hzero := eq_zero_of_iterate hpoly (eq_zero_of_iterate hpoly h)
    intro b hb
    obtain ⟨j, hj, rfl⟩ := List.getElem_of_mem hb
    have hbit : (word ((bits.drop start).take w) : BitVec w).getLsbD j =
        ((bits.drop start).take w).getD j false := getLsbD_word (by omega)
    rw [hzero, BitVec.getLsbD_zero, List.getD_eq_getElem?_getD,
      List.getElem?_eq_getElem hj, Option.getD_some] at hbit
    exact hbit.symm
  intro b hb
  rw [hsplit] at hb
  rcases List.mem_append.mp hb with hb | hb
  · exact hbefore b hb
  · rcases List.mem_append.mp hb with hb | hb
    · exact hwithin b hb
    · exact hafter b hb

/-! ## Parity -/

/-- A bit as a number modulo two. -/
def unit (b : Bool) : ZMod 2 := if b then 1 else 0

/-- The parity of a register. -/
def parity (r : BitVec w) : ZMod 2 := ∑ i ∈ Finset.range w, unit (r.getLsbD i)

theorem unit_xor (a b : Bool) : unit (a ^^ b) = unit a + unit b := by
  cases a <;> cases b <;> decide

theorem parity_xor : parity (r ^^^ s) = parity r + parity s := by
  simp only [parity, BitVec.getLsbD_xor, unit_xor, Finset.sum_add_distrib]

theorem parity_bit (hw : 0 < w) (b : Bool) : parity (bit b : BitVec w) = unit b := by
  have hrest : ∀ i ∈ Finset.range w, i ≠ 0 → unit ((bit b : BitVec w).getLsbD i) = 0 := by
    intro i hi hne
    rw [getLsbD_bit (Finset.mem_range.mp hi), decide_eq_false hne, Bool.and_false]
    rfl
  rw [parity, Finset.sum_eq_single_of_mem 0 (Finset.mem_range.mpr hw) hrest, getLsbD_bit hw,
    decide_eq_true rfl, Bool.and_true]

/-- What falls out is what the register loses. -/
theorem parity_ushiftRight : parity (r >>> 1) + unit (r.getLsbD 0) = parity r := by
  have hout : unit (r.getLsbD w) = 0 := by
    rw [BitVec.getLsbD_of_ge r w (Nat.le_refl w)]
    rfl
  have hdown : parity (r >>> 1) = ∑ i ∈ Finset.range w, unit (r.getLsbD (i + 1)) := by
    apply Finset.sum_congr rfl
    intro i _
    rw [BitVec.getLsbD_ushiftRight, Nat.add_comm]
  have hall := Finset.sum_range_succ' (fun i => unit (r.getLsbD i)) w
  rw [Finset.sum_range_succ, hout, add_zero] at hall
  rw [hdown, parity, hall]

/-- An odd polynomial makes up for the one that falls out. -/
theorem parity_shift (hodd : parity poly = 1) : parity (shift poly r) = parity r := by
  rw [← parity_ushiftRight (r := r), shift]
  cases r.getLsbD 0 with
  | false =>
      rw [if_neg Bool.false_ne_true]
      exact (add_zero _).symm
  | true =>
      rw [if_pos rfl, parity_xor, hodd]
      rfl

theorem parity_run (hw : 0 < w) (hodd : parity poly = 1) :
    parity (run poly bits r) = parity r + (bits.map unit).sum := by
  induction bits generalizing r with
  | nil => exact (add_zero _).symm
  | cons b bits ih =>
      rw [run_cons, ih, parity_shift hodd, parity_xor, parity_bit hw, List.map_cons, List.sum_cons,
        add_assoc]

theorem sum_unit (bits : List Bool) : (bits.map unit).sum = (bits.count true : ZMod 2) := by
  induction bits with
  | nil => rfl
  | cons b bits ih =>
      rw [List.map_cons, List.sum_cons, ih, List.count_cons, Nat.cast_add, add_comm]
      cases b <;> rfl

/-- No odd number of ones goes unseen. -/
theorem odd_seen (hw : 0 < w) (hparity : parity poly = 1) (hodd : bits.count true % 2 = 1) :
    run poly bits 0#w ≠ 0#w := by
  intro h
  have hzero : parity (0#w) = 0 := by
    apply Finset.sum_eq_zero
    intro i _
    rw [BitVec.getLsbD_zero]
    rfl
  have hrun : parity (run poly bits 0#w) = parity 0#w + (bits.map unit).sum :=
    parity_run hw hparity
  rw [h, hzero, zero_add, sum_unit] at hrun
  have hone : (bits.count true : ZMod 2) = 1 := by
    rw [← ZMod.natCast_mod, hodd]
    rfl
  rw [hone] at hrun
  exact absurd hrun (by decide)

end Crc
