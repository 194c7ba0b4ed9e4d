import GbbDongle.Lib.History
import GbbDongle.Model.Access
import GbbDongle.Proofs.Executor
import GbbDongle.Proofs.Hex

/-!
# Every access is in bounds

The checked executor agrees with the other one: each function, under what its
callers have established, comes to `some` of what the unchecked one computes.
The codec, the log and `start_next_line_` look after themselves. The rest
leans on one invariant of the executor between calls, `InRange`: in GAP and
RX_WAIT it stands at a line whose frame is in `tx_frame_`, and `rx_frame_` is
never longer than its bound.
-/

namespace Gbb

open Wrap Bounded History

variable {c : BusConfig} {t t' tDone tEnd tNext t₁ t₂ t₃ : Nat} {e : ModbusExecutor}
  {rx frame : Bytes} {fault : LineFault}

/-! ## The codec, the CRC and the log -/

namespace Access

/-- The loop of `hex_to_bytes` never splits a pair, since the length is even. -/
theorem hexLoop_eq (hex : Bytes) (i : Nat) (out : Bytes) (heven : (hex.length - i) % 2 = 0) :
    hexLoop hex i out = some (hexPairs (hex.drop i) out) := by
  fun_induction hexLoop hex i out with
  | case1 i out hi ih =>
      have hi' : i + 1 < hex.length := by omega
      have hdrop : hex.drop i = hex[i] :: hex[i + 1] :: hex.drop (i + 2) := by
        rw [List.drop_eq_getElem_cons hi, List.drop_eq_getElem_cons hi']
      rw [hdrop, hexPairs_cons, List.getElem?_eq_getElem hi, List.getElem?_eq_getElem hi']
      simp only [Option.bind_eq_bind, Option.bind_some]
      cases hexNibble hex[i] with
      | none => rfl
      | some h =>
          cases hexNibble hex[i + 1] with
          | none => rfl
          | some l => exact ih h l (by omega)
  | case2 i out hi =>
      rw [List.drop_of_length_le (by omega)]
      rfl

theorem hexToBytes_eq (hex out : Bytes) : hexToBytes hex out = some (Gbb.hexToBytes hex out) := by
  rw [hexToBytes, Gbb.hexToBytes]
  split
  · rfl
  · next heven =>
      rw [hexLoop_eq hex 0 [] (by omega), List.drop_zero]

theorem modbusCrc16_eq {data : Bytes} {n : Nat} (h : n ≤ data.length) :
    modbusCrc16 data n = some (Gbb.modbusCrc16 (data.take n)) :=
  readLoop_take (g := Gbb.modbusCrc16) h fun j b => by
    rw [Gbb.modbusCrc16, Gbb.modbusCrc16, List.foldl_append]
    rfl

/-- A nibble is below the sixteen digits of `HEX`. -/
theorem hexTable_nibbles (b : UInt8) :
    hexTable[(b >>> 4).toNat]? = some (hexDigit (b >>> 4)) ∧
      hexTable[(b &&& 0x0F).toNat]? = some (hexDigit (b &&& 0x0F)) :=
  forall_byte
    (p := fun b => hexTable[(b >>> 4).toNat]? = some (hexDigit (b >>> 4)) ∧
      hexTable[(b &&& 0x0F).toNat]? = some (hexDigit (b &&& 0x0F)))
    (by decide +kernel) b

theorem bytesToHex_append (l l' : Bytes) :
    Gbb.bytesToHex (l ++ l') = Gbb.bytesToHex l ++ Gbb.bytesToHex l' := by
  induction l with
  | nil => rfl
  | cons b l ih => rw [List.cons_append, Gbb.bytesToHex, Gbb.bytesToHex, ih]; rfl

theorem bytesToHex_eq {data : Bytes} {n : Nat} (h : n ≤ data.length) :
    bytesToHex data n = some (Gbb.bytesToHex (data.take n)) :=
  readLoop_take (g := Gbb.bytesToHex) h fun j b => by
    obtain ⟨hhi, hlo⟩ := hexTable_nibbles b
    rw [hhi, hlo, bytesToHex_append]
    rfl

/-- A checked read that succeeds reads what the unchecked one reads. -/
theorem getElem?_eq_getD {i : Nat} (h : i < frame.length) : frame[i]? = some (frame.getD i 0) := by
  rw [List.getD_eq_getElem?_getD, List.getElem?_eq_getElem h, Option.getD_some]

theorem put_eq {b : UInt8} {out : Bytes} (h : out.length < maxFrameSize * 3 + 1) :
    put b out = some (out ++ [b]) := by
  rw [put, require_of h]
  rfl

/-- A turn of `frame_to_log_hex` writes three characters at most. -/
theorem putByte_ok (i : Nat) (b : UInt8) (out : Bytes) (h : out.length + 3 ≤ maxFrameSize * 3) :
    ∃ out', putByte i b out = some out' ∧ out'.length ≤ out.length + 3 := by
  obtain ⟨hhi, hlo⟩ := hexTable_nibbles b
  have hdigits : ∀ out₁ : Bytes, out₁.length ≤ out.length + 1 →
      (do
        let out₂ ← put (hexDigit (b >>> 4)) out₁
        put (hexDigit (b &&& 0x0F)) out₂) =
      some (out₁ ++ [hexDigit (b >>> 4)] ++ [hexDigit (b &&& 0x0F)]) := by
    intro out₁ h₁
    rw [put_eq (by omega), Option.bind_eq_bind, Option.bind_some]
    refine put_eq ?_
    rw [List.length_append, List.length_singleton]
    omega
  rw [putByte, hhi, hlo]
  split
  · refine ⟨_, hdigits out (by omega), ?_⟩
    simp only [List.length_append, List.length_singleton]
    omega
  · rw [put_eq (by omega)]
    refine ⟨_, hdigits (out ++ [32]) (by simp), ?_⟩
    simp only [List.length_append, List.length_singleton]
    omega

/-- A frame of any length fits the log buffer, which cuts it off. -/
theorem frameToLogHex_ok (frame : Bytes) : ∃ out, frameToLogHex frame = some out := by
  rw [frameToLogHex]
  generalize hn : (if frame.length < maxFrameSize then frame.length else maxFrameSize) = n
  have hle : n ≤ frame.length ∧ n ≤ maxFrameSize := by
    rw [← hn]
    split <;> omega
  have hturns : ∃ out, readLoop frame putByte n 0 [] = some out ∧ out.length ≤ 3 * (0 + n) := by
    refine readLoop_inv (I := fun j (out : Bytes) => out.length ≤ 3 * j) ?_ (Nat.le_refl _) ?_
    · omega
    intro j b out hj _ hlen
    obtain ⟨out', hput, hlen'⟩ := putByte_ok j b out (by omega)
    exact ⟨out', hput, by omega⟩
  obtain ⟨out, hout, hlen⟩ := hturns
  exact ⟨out ++ [0], by rw [hout, Option.bind_eq_bind, Option.bind_some, put_eq (by omega)]⟩

theorem logFrame_eq (frame : Bytes) (h : e.lineIndex < e.header.lines.length) :
    logFrame frame e = some () := by
  obtain ⟨out, hout⟩ := frameToLogHex_ok frame
  rw [logFrame, List.getElem?_eq_getElem h, hout]
  rfl

/-! ## The end of a line -/

/-- Writing the error and clearing the line commute. -/
theorem failLines_eq (fault : LineFault) {i : Nat} {ls : List GbbLine} (h : i < ls.length) :
    failLines fault i ls = some (ModbusExecutor.failFrom fault i ls) := by
  have hsplit : ls.take i ++ ls[i] :: ls.drop (i + 1) = ls := by
    rw [← List.drop_eq_getElem_cons h, List.take_append_drop]
  have hlen : (ls.take i).length = i := by
    rw [List.length_take]
    omega
  have happ := ModbusExecutor.failFrom_append fault (ls.take i) (ls.drop (i + 1)) ls[i]
  rw [hlen, hsplit] at happ
  rw [failLines, writeAt_writeLoop h, happ]
  rfl

theorem failLine_eq (t : Nat) (fault : LineFault) (h : e.lineIndex < e.header.lines.length) :
    failLine t fault e = some (ModbusExecutor.failLine t fault e).1 := by
  rw [failLine, failLines_eq fault h]
  rfl

/-- The `while` reads only what its first condition admits. -/
theorem skipLines_eq (lines : List GbbLine) (i : Nat) :
    skipLines lines i = some (ModbusExecutor.skipLines (lines.drop i) i) := by
  fun_induction skipLines lines i with
  | case1 i hi ih =>
      rw [List.getElem?_eq_getElem hi, List.drop_eq_getElem_cons hi, ModbusExecutor.skipLines,
        GbbLine.carries, Option.bind_eq_bind, Option.bind_some]
      cases lines[i].hasModbus <;> cases lines[i].modbus.isEmpty
      all_goals first | exact ih | rfl
  | case2 i hi =>
      rw [List.drop_of_length_le (by omega)]
      rfl

/-- `start_next_line_` may be called in any state: it stops at the first index
that is no line, and a failure is the failure of the line it has found. -/
theorem startNextLine_eq (t : Nat) (e : ModbusExecutor) :
    startNextLine t e = some (ModbusExecutor.startNextLine t e).1 := by
  rw [startNextLine, ModbusExecutor.startNextLine, skipLines_eq, Option.bind_eq_bind,
    Option.bind_some]
  generalize ModbusExecutor.skipLines (e.header.lines.drop e.lineIndex) e.lineIndex = i
  by_cases hi : i < e.header.lines.length
  · rw [if_neg (by omega), List.getElem?_eq_getElem hi]
    simp only [Option.bind_eq_bind, Option.bind_some, hexToBytes_eq]
    split
    · exact failLine_eq t .invalidHex hi
    · rfl
  · rw [if_pos (by omega), List.getElem?_eq_none (by omega)]

/-! ## Sending and receiving -/

theorem transmitCurrent_eq (c : BusConfig) (t tDone : Nat)
    (hline : e.lineIndex < e.header.lines.length) (htx : 4 ≤ e.txFrame.length) :
    transmitCurrent c tDone e = some (ModbusExecutor.transmitCurrent c t tDone e).1 := by
  rw [transmitCurrent, getElem?_eq_getD (show 1 < e.txFrame.length by omega), logFrame_eq _ hline]
  rfl

theorem announcedLength_eq (h : 3 ≤ frame.length) :
    announcedLength frame = some (ModbusExecutor.expectedLength frame) := by
  rw [announcedLength, ModbusExecutor.expectedLength,
    getElem?_eq_getD (show 1 < frame.length by omega),
    getElem?_eq_getD (show 2 < frame.length by omega)]
  simp only [Option.bind_eq_bind, Option.bind_some]
  split
  · rfl
  · split
    · rfl
    · split <;> rfl

/-- A data reply is the longest there is: its byte count is a byte. -/
theorem expectedLength_le (frame : Bytes) :
    ModbusExecutor.expectedLength frame ≤ maxFrameSize := by
  have hbyte : (frame.getD 2 0).toNat < 256 := UInt8.toNat_lt _
  rw [ModbusExecutor.expectedLength, maxFrameSize]
  split
  · omega
  · split
    · omega
    · split <;> omega

theorem expectedLength_eq (h : 3 ≤ frame.length) :
    expectedLength frame = some (ModbusExecutor.expectedLength frame) := by
  rw [expectedLength, announcedLength_eq h, Option.bind_eq_bind, Option.bind_some,
    require_of (expectedLength_le frame)]
  rfl

theorem shrink_eq {n : Nat} (h : n ≤ frame.length) : shrink n frame = some (frame.take n) := by
  rw [shrink, require_of h]
  rfl

/-- The last two bytes are there when there are two. -/
theorem crcOk_eq (h : 2 ≤ frame.length) : crcOk frame = some (Gbb.crcOk frame) := by
  simp only [crcOk, Gbb.crcOk]
  rw [require_of h, modbusCrc16_eq (by omega), getElem?_eq_getD (by omega),
    getElem?_eq_getD (by omega)]
  rfl

theorem acceptReply_eq (t tNext : Nat) (hline : e.lineIndex < e.header.lines.length) :
    acceptReply t tNext e = some (ModbusExecutor.acceptReply t tNext e).1 := by
  rw [acceptReply, bytesToHex_eq (Nat.le_refl _), List.take_length, Option.bind_eq_bind,
    Option.bind_some, writeAt_eq hline, Option.bind_eq_bind, Option.bind_some, logFrame_eq,
    Option.bind_eq_bind, Option.bind_some, startNextLine_eq]
  · rfl
  · rw [List.length_modify]
    exact hline

theorem finishLineOk_eq (t tNext : Nat) (hline : e.lineIndex < e.header.lines.length) :
    finishLineOk t tNext e = some (ModbusExecutor.finishLineOk t tNext e).1 := by
  rw [finishLineOk, ModbusExecutor.finishLineOk]
  split
  · rw [logFrame_eq _ hline, failLine_eq t _ hline]
    rfl
  · rw [crcOk_eq (by omega), Option.bind_eq_bind, Option.bind_some]
    split
    · rw [logFrame_eq _ hline, failLine_eq t _ hline]
      rfl
    · exact acceptReply_eq t tNext hline

theorem checkTimeout_eq (c : BusConfig) (t tEnd : Nat)
    (hline : e.lineIndex < e.header.lines.length) :
    checkTimeout c t tEnd e = some (ModbusExecutor.checkTimeout c t tEnd e).1 := by
  rw [checkTimeout, ModbusExecutor.checkTimeout]
  split
  · rw [logFrame_eq _ hline, failLine_eq tEnd _ hline, List.getElem?_eq_getElem hline]
    split <;> rfl
  · rfl

theorem handleRx_eq (c : BusConfig) (rx : Bytes) (t tEnd tNext : Nat)
    (hline : e.lineIndex < e.header.lines.length) :
    handleRx c rx t tEnd tNext e = some (ModbusExecutor.handleRx c rx t tEnd tNext e).1 := by
  -- What comes in does not touch the lines.
  have hline' : (ModbusExecutor.receive t rx e).lineIndex <
      (ModbusExecutor.receive t rx e).header.lines.length := hline
  simp only [handleRx, ModbusExecutor.handleRx]
  generalize ModbusExecutor.receive t rx e = e' at hline' ⊢
  by_cases hlen : e'.rxFrame.length < 3
  · rw [if_neg (by omega), if_pos hlen]
    exact checkTimeout_eq c t tEnd hline'
  · rw [if_pos (by omega), if_neg hlen, expectedLength_eq (by omega), Option.bind_eq_bind,
      Option.bind_some]
    split
    · next hexp =>
        rw [shrink_eq hexp.2]
        exact finishLineOk_eq tEnd tNext hline'
    · split
      · exact finishLineOk_eq tEnd tNext hline'
      · exact checkTimeout_eq c t tEnd hline'

end Access

/-! ## The invariant -/

namespace ModbusExecutor

/-- Between calls: in GAP and RX_WAIT there is a current line, and the command
for it is its payload, decoded to the end. -/
structure InRange (e : ModbusExecutor) : Prop where
  line : e.state = .gap ∨ e.state = .rxWait →
    ∃ line, e.header.lines[e.lineIndex]? = some line ∧ line.carries = true ∧
      hexDecode line.modbus = some e.txFrame ∧ 4 ≤ e.txFrame.length
  rx : e.rxFrame.length ≤ maxFrameSize

theorem InRange.lineIndex_lt (h : InRange e) (hs : e.state = .gap ∨ e.state = .rxWait) :
    e.lineIndex < e.header.lines.length := by
  obtain ⟨line, hget, -⟩ := h.line hs
  exact (List.getElem?_eq_some_iff.mp hget).1

/-- A batch that is over holds no frame at all. -/
theorem inRange_finishAll (e : ModbusExecutor) : InRange (finishAll e) where
  line hs := by
    rcases hs with hs | hs <;> cases hs
  rx := Nat.zero_le _

theorem inRange_failLine (t : Nat) (fault : LineFault) (e : ModbusExecutor) :
    InRange (failLine t fault e).1 :=
  inRange_finishAll _

/-- `start_next_line_` needs nothing of what was there before but the bound. -/
theorem inRange_startNextLine (t : Nat) (hrx : e.rxFrame.length ≤ maxFrameSize) :
    InRange (startNextLine t e).1 := by
  have h := startNextLine_case t e
  generalize startNextLine t e = r at h ⊢
  cases h with
  | finished => exact inRange_finishAll _
  | badHex => exact inRange_failLine t _ _
  | ready skipped line rest frame hdrop _ hc hhex hlen =>
      refine ⟨fun _ => ⟨line, ?_, hc, hhex, hlen⟩, hrx⟩
      show e.header.lines[e.lineIndex + skipped.length]? = some line
      rw [← List.getElem?_drop, hdrop, List.getElem?_append_right (Nat.le_refl _), Nat.sub_self]
      rfl

theorem InRange.receive (h : InRange e) (t : Nat) (rx : Bytes) :
    InRange (ModbusExecutor.receive t rx e) where
  line := h.line
  rx := by
    have hrx := h.rx
    show (e.rxFrame ++ rx.take (maxFrameSize - e.rxFrame.length)).length ≤ maxFrameSize
    rw [List.length_append, List.length_take]
    omega

theorem InRange.finishLineOk (hrx : e.rxFrame.length ≤ maxFrameSize) (t tNext : Nat) :
    InRange (ModbusExecutor.finishLineOk t tNext e).1 := by
  rw [ModbusExecutor.finishLineOk]
  split
  · exact inRange_failLine t _ _
  · split
    · exact inRange_failLine t _ _
    · exact inRange_startNextLine tNext hrx

theorem InRange.checkTimeout (h : InRange e) (c : BusConfig) (t tEnd : Nat) :
    InRange (ModbusExecutor.checkTimeout c t tEnd e).1 := by
  rw [ModbusExecutor.checkTimeout]
  split
  · exact inRange_failLine tEnd _ _
  · exact h

theorem InRange.handleRx (h : InRange e) (c : BusConfig) (rx : Bytes) (t tEnd tNext : Nat) :
    InRange (ModbusExecutor.handleRx c rx t tEnd tNext e).1 := by
  have h' := h.receive t rx
  rw [ModbusExecutor.handleRx]
  generalize ModbusExecutor.receive t rx e = e' at h' ⊢
  split
  · exact h'.checkTimeout c t tEnd
  · split
    · refine InRange.finishLineOk ?_ tEnd tNext
      show (e'.rxFrame.take _).length ≤ maxFrameSize
      rw [List.length_take]
      exact Nat.le_trans (Nat.min_le_right _ _) h'.rx
    · split
      · exact InRange.finishLineOk h'.rx tEnd tNext
      · exact h'.checkTimeout c t tEnd

theorem InRange.loop (h : InRange e) (c : BusConfig) (rx : Bytes) (t₁ t₂ t₃ : Nat) :
    InRange (ModbusExecutor.loop c rx t₁ t₂ t₃ e).1 := by
  rw [ModbusExecutor.loop]
  split
  · exact h
  · exact h
  · next hs =>
      split
      · exact ⟨fun _ => h.line (.inl hs), Nat.zero_le _⟩
      · exact h
  · exact h
  · exact h.handleRx c rx t₁ t₂ t₃

/-- Every call keeps the invariant, a `start` of a busy executor included. -/
theorem InRange.perform (h : InRange e) (c : BusConfig) (call : ExecCall) :
    InRange (ModbusExecutor.perform c call e).1 := by
  cases call with
  | start t header => exact inRange_startNextLine t h.rx
  | serve call =>
      cases call with
      | poll call => exact h.loop c call.rx call.t₁ call.t₂ call.t₃
      | baudRate baud => exact ⟨h.line, h.rx⟩
  | takeResult =>
      refine ⟨fun hs => ?_, h.rx⟩
      rcases hs with hs | hs <;> cases hs

end ModbusExecutor

/-! ## The calls -/

namespace Access

theorem loop_eq (h : e.InRange) (c : BusConfig) (rx : Bytes) (t₁ t₂ t₃ : Nat) :
    loop c rx t₁ t₂ t₃ e = some (ModbusExecutor.loop c rx t₁ t₂ t₃ e).1 := by
  cases hs : e.state with
  | idle | done | transmit =>
      rw [loop, ModbusExecutor.loop, hs]
  | gap =>
      obtain ⟨-, -, -, -, htx⟩ := h.line (.inl hs)
      rw [loop, ModbusExecutor.loop, hs]
      simp only []
      split
      · exact transmitCurrent_eq c t₁ t₂ (h.lineIndex_lt (.inl hs)) htx
      · rfl
  | rxWait =>
      rw [loop, ModbusExecutor.loop, hs]
      exact handleRx_eq c rx t₁ t₂ t₃ (h.lineIndex_lt (.inr hs))

theorem perform_eq (h : e.InRange) (c : BusConfig) (call : ExecCall) :
    perform c call e = some (ModbusExecutor.perform c call e).1 := by
  cases call with
  | start t header => exact startNextLine_eq t _
  | serve call =>
      cases call with
      | poll call => exact loop_eq h c call.rx call.t₁ call.t₂ call.t₃
      | baudRate baud => rfl
  | takeResult => rfl

end Access

/-- The executor never indexes out of range: after any calls, with any headers
and any bytes on the UART, the invariant holds, and the next call comes to its
end with all its accesses checked. -/
theorem accesses_in_range (c : BusConfig) (baud : UInt32) (calls : List ExecCall) :
    let e := after (ModbusExecutor.perform c) calls { baudRateHint := baud }
    e.InRange ∧
      ∀ call, Access.perform c call e = some (ModbusExecutor.perform c call e).1 := by
  intro e
  have h : e.InRange := by
    refine (moves_run (f := ModbusExecutor.perform c)).invariant (I := ModbusExecutor.InRange) ?_ ?_
    · refine ⟨fun hs => ?_, Nat.zero_le _⟩
      rcases hs with hs | hs <;> cases hs
    · intro m hm hpre
      have hpost : m.post = (ModbusExecutor.perform c m.act m.pre).1 := by rw [hm]
      rw [hpost]
      exact hpre.perform c m.act
  exact ⟨h, Access.perform_eq h c⟩

end Gbb
