import GbbDongle.Lib.Crc
import GbbDongle.Model.Busscan
import GbbDongle.Proofs.Hex

/-!
# What the CRC of a frame catches

`modbus_crc16` of the firmware and `crc16` of the bus scan are the register of
`Crc` with sixteen bits, fed with the bits of the bytes from the least
significant one on; that is also the order in which they go over the wire. The
last two bytes of a frame hold what the rest left in the register exactly when
the whole frame leaves nothing in it, and a frame that passes and an altered one
that passes leave an alteration that leaves nothing either.
-/

namespace Gbb

open Crc

variable {data body frame frame' : Bytes}

/-- The polynomial of the Modbus CRC, reflected. -/
def modbusPoly : BitVec 16 := 0xA001#16

/-- The bits of a byte as they go over the wire. -/
def byteBits (b : UInt8) : List Bool := (List.range 8).map b.toBitVec.getLsbD

/-- The bits of a frame as they go over the wire. -/
def wireBits (frame : Bytes) : List Bool := frame.flatMap byteBits

/-! ## The register -/

theorem modbusPoly_top : modbusPoly.getLsbD (16 - 1) = true := by decide

theorem modbusPoly_odd : parity modbusPoly = 1 := by decide

theorem lowest_bit (r : UInt16) : (r &&& 1 ≠ 0) ↔ r.toBitVec.getLsbD 0 = true := by
  have hlow : (r &&& 1).toBitVec = (BitVec.ofBool (r.toBitVec.getLsbD 0)).setWidth 16 :=
    BitVec.and_one_eq_setWidth_ofBool_getLsbD
  rw [ne_eq, ← UInt16.toBitVec_inj, hlow]
  cases r.toBitVec.getLsbD 0 <;> decide

theorem crcBit_toBitVec (r : UInt16) : (crcBit r).toBitVec = shift modbusPoly r.toBitVec := by
  rw [crcBit, shift]
  simp only [lowest_bit]
  split <;> rfl

theorem byteBits_length (b : UInt8) : (byteBits b).length = 8 := by
  rw [byteBits, List.length_map, List.length_range]

/-- The bits of a byte, all at once, are the byte. -/
theorem word_byteBits (b : UInt8) : (word (byteBits b) : BitVec 16) = b.toUInt16.toBitVec :=
  forall_byte (p := fun b => (word (byteBits b) : BitVec 16) = b.toUInt16.toBitVec)
    (by decide +kernel) b

theorem crcByte_toBitVec (r : UInt16) (b : UInt8) :
    (crcByte r b).toBitVec = run modbusPoly (byteBits b) r.toBitVec := by
  have hlen := byteBits_length b
  rw [run_eq_iterate (by omega), hlen, word_byteBits, crcByte]
  simp only [crcBit_toBitVec, UInt16.toBitVec_xor]
  rfl

/-- The register after a byte string, from any value on. -/
theorem foldl_crcByte (r : UInt16) :
    (data.foldl crcByte r).toBitVec = run modbusPoly (wireBits data) r.toBitVec := by
  induction data generalizing r with
  | nil => rfl
  | cons b data ih =>
      rw [List.foldl_cons, ih, crcByte_toBitVec, wireBits, wireBits, List.flatMap_cons, run_append]

theorem modbusCrc16_eq :
    (modbusCrc16 data).toBitVec = run modbusPoly (wireBits data) (BitVec.allOnes 16) :=
  foldl_crcByte 0xFFFF

theorem wireBits_append (xs ys : Bytes) : wireBits (xs ++ ys) = wireBits xs ++ wireBits ys :=
  List.flatMap_append

/-! ## The two checks -/

/-- The two bytes after the body, low byte first, as one number. -/
theorem word_wireBits_pair (lo hi : UInt8) :
    (word (wireBits [lo, hi]) : BitVec 16) = (lo.toUInt16 ||| (hi.toUInt16 <<< 8)).toBitVec := by
  have hshift : (hi.toUInt16 <<< 8).toBitVec = hi.toUInt16.toBitVec <<< 8 := rfl
  rw [wireBits, List.flatMap_cons, List.flatMap_singleton, word_append, word_byteBits,
    word_byteBits, byteBits_length, UInt16.toBitVec_or, hshift]
  apply BitVec.eq_of_getLsbD_eq
  intro i hi'
  -- the low byte ends where the high byte begins
  have hlow : 8 ≤ i → lo.toUInt16.toBitVec.getLsbD i = false := by
    intro h8
    simp [BitVec.getLsbD_setWidth, BitVec.getLsbD_of_ge _ i h8]
  rw [BitVec.getLsbD_xor, BitVec.getLsbD_or, BitVec.getLsbD_shiftLeft]
  by_cases h8 : i < 8
  · simp [h8]
  · rw [hlow (by omega), Bool.false_xor, Bool.false_or]

/-- A frame that leaves nothing in the register. -/
def Passes (frame : Bytes) : Prop :=
  run modbusPoly (wireBits frame) (BitVec.allOnes 16) = 0#16

theorem passes_iff (lo hi : UInt8) :
    Passes (body ++ [lo, hi]) ↔ modbusCrc16 body = lo.toUInt16 ||| (hi.toUInt16 <<< 8) := by
  have hlen : (wireBits [lo, hi]).length = 16 := by
    rw [wireBits, List.flatMap_cons, List.flatMap_singleton, List.length_append,
      byteBits_length, byteBits_length]
  rw [Passes, wireBits_append, run_check modbusPoly_top hlen, word_wireBits_pair, ← modbusCrc16_eq,
    UInt16.toBitVec_inj, eq_comm]

theorem exists_body (h : 2 ≤ frame.length) : ∃ body lo hi, frame = body ++ [lo, hi] := by
  have hlast : (frame.drop (frame.length - 2)).length = 2 := by
    rw [List.length_drop]
    omega
  obtain ⟨lo, hi, hpair⟩ := List.length_eq_two.mp hlast
  exact ⟨frame.take (frame.length - 2), lo, hi, by rw [← hpair, List.take_append_drop]⟩

theorem crcOk_append (lo hi : UInt8) :
    crcOk (body ++ [lo, hi]) = true ↔ Passes (body ++ [lo, hi]) := by
  rw [passes_iff, crcOk]
  simp [List.getD_eq_getElem?_getD]

theorem crcOk_iff (h : 2 ≤ frame.length) : crcOk frame = true ↔ Passes frame := by
  obtain ⟨body, lo, hi, rfl⟩ := exists_body h
  exact crcOk_append lo hi

/-- The two programs compute the same CRC. -/
theorem crc16_eq : Busscan.crc16 data = modbusCrc16 data := rfl

theorem crcMatches_append (lo hi : UInt8) :
    Busscan.crcMatches (body ++ [lo, hi]) = some (crcOk (body ++ [lo, hi])) := by
  rw [Busscan.crcMatches, if_neg (by simp), crcOk]
  simp [crc16_eq, List.getD_eq_getElem?_getD]

theorem crcMatches_eq (h : 2 ≤ frame.length) :
    Busscan.crcMatches frame = some (crcOk frame) := by
  obtain ⟨body, lo, hi, rfl⟩ := exists_body h
  exact crcMatches_append lo hi

/-- A body passes with its own CRC behind it, low byte first. -/
theorem passes_own_crc (body : Bytes) :
    Passes (body ++ [(modbusCrc16 body).toUInt8, (modbusCrc16 body >>> 8).toUInt8]) := by
  rw [passes_iff]
  generalize modbusCrc16 body = crc
  apply UInt16.toBitVec_inj.mp
  apply BitVec.eq_of_getLsbD_eq
  intro i hi
  have hlow : crc.toUInt8.toUInt16.toBitVec.getLsbD i =
      (crc.toBitVec.getLsbD i && decide (i < 8)) := by
    have hcut : crc.toUInt8.toUInt16.toBitVec = (crc.toBitVec.setWidth 8).setWidth 16 := rfl
    rw [hcut, BitVec.getLsbD_setWidth, BitVec.getLsbD_setWidth, decide_eq_true hi, Bool.true_and,
      Bool.and_comm]
  have hhigh : ((crc >>> 8).toUInt8.toUInt16 <<< 8).toBitVec.getLsbD i =
      (crc.toBitVec.getLsbD i && !decide (i < 8)) := by
    have hshift : ((crc >>> 8).toUInt8.toUInt16 <<< 8).toBitVec =
        ((crc.toBitVec >>> 8).setWidth 8).setWidth 16 <<< 8 := rfl
    rw [hshift, BitVec.getLsbD_shiftLeft, BitVec.getLsbD_setWidth, BitVec.getLsbD_setWidth,
      BitVec.getLsbD_ushiftRight]
    by_cases h8 : i < 8
    · simp [h8]
    · have hback : 8 + (i - 8) = i := by omega
      simp [h8, hi, hback, show i - 8 < 8 by omega, show i - 8 < 16 by omega]
  rw [UInt16.toBitVec_or, BitVec.getLsbD_or, hlow, hhigh]
  cases crc.toBitVec.getLsbD i <;> cases decide (i < 8) <;> rfl

/-! ## Alterations -/

/-- Where two frames of one length differ, bit by bit. -/
def flips (frame frame' : Bytes) : List Bool := List.zipWith xor (wireBits frame) (wireBits frame')

/-- One frame is the other after a burst of at most sixteen bits, or after an
odd number of flips anywhere. -/
def Altered (frame frame' : Bytes) : Prop :=
  (frame' ≠ frame ∧ Burst 16 (flips frame frame')) ∨ (flips frame frame').count true % 2 = 1

theorem wireBits_length (frame : Bytes) : (wireBits frame).length = 8 * frame.length := by
  induction frame with
  | nil => rfl
  | cons b frame ih =>
      rw [wireBits, List.flatMap_cons, ← wireBits, List.length_append, byteBits_length, ih,
        List.length_cons]
      omega

theorem byteBits_injective {b b' : UInt8} (h : byteBits b = byteBits b') : b = b' := by
  apply UInt8.toBitVec_inj.mp
  apply BitVec.eq_of_getLsbD_eq
  intro i hi
  exact List.map_inj_left.mp h i (List.mem_range.mpr hi)

theorem eq_of_wireBits (hlen : frame'.length = frame.length)
    (h : wireBits frame = wireBits frame') : frame' = frame := by
  induction frame generalizing frame' with
  | nil => exact List.length_eq_zero_iff.mp hlen
  | cons b frame ih =>
      cases frame' with
      | nil => cases hlen
      | cons b' frame' =>
          rw [wireBits, wireBits, List.flatMap_cons, List.flatMap_cons] at h
          obtain ⟨hbyte, hrest⟩ :=
            List.append_inj h (by rw [byteBits_length, byteBits_length])
          rw [byteBits_injective hbyte, ih (Nat.succ.inj hlen) hrest]

theorem eq_of_flips (hlen : frame'.length = frame.length)
    (h : ∀ b ∈ flips frame frame', b = false) : frame' = frame :=
  eq_of_wireBits hlen (eq_of_xor_false (by rw [wireBits_length, wireBits_length, hlen]) h)

/-- What two passing frames differ in leaves nothing in an empty register. -/
theorem flips_leave_nothing (hlen : frame'.length = frame.length) (h : Passes frame)
    (h' : Passes frame') : run modbusPoly (flips frame frame') 0#16 = 0#16 := by
  have hbits : (wireBits frame).length = (wireBits frame').length := by
    rw [wireBits_length, wireBits_length, hlen]
  have hxor : run modbusPoly (flips frame frame') (BitVec.allOnes 16 ^^^ BitVec.allOnes 16) =
      run modbusPoly (wireBits frame) (BitVec.allOnes 16) ^^^
        run modbusPoly (wireBits frame') (BitVec.allOnes 16) := run_xor hbits
  rwa [BitVec.xor_self, show run modbusPoly (wireBits frame) (BitVec.allOnes 16) = 0#16 from h,
    show run modbusPoly (wireBits frame') (BitVec.allOnes 16) = 0#16 from h',
    BitVec.xor_self] at hxor

theorem not_passes_altered (hlen : frame'.length = frame.length) (h : Passes frame)
    (halt : Altered frame frame') : ¬Passes frame' := by
  intro h'
  have hnone := flips_leave_nothing hlen h h'
  rcases halt with ⟨hne, hburst⟩ | hodd
  · exact hne (eq_of_flips hlen (burst_seen modbusPoly_top hburst hnone))
  · exact odd_seen (by decide) modbusPoly_odd hodd hnone

theorem not_altered_self (frame : Bytes) : ¬Altered frame frame := by
  have hnone : ∀ b ∈ flips frame frame, b ≠ true := by
    intro b hb
    rw [flips, List.zipWith_self, List.mem_map] at hb
    obtain ⟨x, -, rfl⟩ := hb
    simp
  rintro (⟨hne, -⟩ | hodd)
  · exact hne rfl
  · rw [List.count_eq_zero_of_not_mem fun hmem => hnone true hmem rfl] at hodd
    cases hodd

/-- Too short to hold a CRC, and passing all the same: only one such frame. -/
theorem eq_of_crcOk_short (hlen : frame.length < 2) (h : crcOk frame = true) : frame = [0xFF] := by
  match frame with
  | [] => exact absurd h (by decide)
  | [b] =>
      exact forall_byte (p := fun b => crcOk [b] = true → [b] = [0xFF]) (by decide +kernel) b h
  | _ :: _ :: _ => simp at hlen

theorem crcOk_altered (hlen : frame'.length = frame.length) (halt : Altered frame frame')
    (h : crcOk frame = true) : crcOk frame' = false := by
  rw [← Bool.not_eq_true]
  intro h'
  by_cases hshort : frame.length < 2
  · have heq : frame = frame' :=
      (eq_of_crcOk_short hshort h).trans (eq_of_crcOk_short (by omega) h').symm
    rw [heq] at halt
    exact not_altered_self frame' halt
  · rw [crcOk_iff (by omega)] at h h'
    exact not_passes_altered hlen h halt h'

/-- The check of `finish_line_ok_`, which is that of `parseIdent` and
`parseSOC`, lets every body pass with its own CRC behind it, and no alteration
of a frame that passes. -/
theorem crc_catches_alterations :
    (∀ body, let frame := body ++ [(modbusCrc16 body).toUInt8, (modbusCrc16 body >>> 8).toUInt8]
      crcOk frame = true ∧ Busscan.crcMatches frame = some true) ∧
    ∀ frame frame', frame'.length = frame.length → Altered frame frame' →
      (crcOk frame = true → crcOk frame' = false) ∧
      (Busscan.crcMatches frame = some true → Busscan.crcMatches frame' = some false) := by
  constructor
  · intro body frame
    have hok : crcOk frame = true := (crcOk_append _ _).mpr (passes_own_crc body)
    have hmatch : Busscan.crcMatches frame = some (crcOk frame) := crcMatches_append _ _
    exact ⟨hok, by rw [hmatch, hok]⟩
  · intro frame frame' hlen halt
    refine ⟨crcOk_altered hlen halt, ?_⟩
    intro h
    have hlong : 2 ≤ frame.length := by
      by_contra hshort
      rw [Busscan.crcMatches, if_pos (by omega)] at h
      cases h
    rw [crcMatches_eq hlong, Option.some.injEq] at h
    rw [crcMatches_eq (by omega), crcOk_altered hlen halt h]

/-- What the scan sends is a frame the executor takes. -/
theorem buildRead_accepted (addr : UInt8) (start count : UInt16) :
    ∃ frame, hexDecode (Busscan.buildRead addr start count) = some frame ∧
      frame.length = 8 ∧ crcOk frame = true := by
  refine ⟨_, hexDecode_bytesToHex _, rfl, ?_⟩
  exact (crcOk_append _ _).mpr (passes_own_crc _)

end Gbb
