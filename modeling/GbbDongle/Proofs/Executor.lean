import GbbDongle.Model.Executor
import Mathlib.Data.List.Forall2

/-!
# What the executor does with a batch

First what one call of `loop` can do at all, as five outcomes that every later
argument splits on. Then two readings of a run of calls: the request a header
came from is still recognizable in it whatever happened to its payloads
(`SameRequest`), and the lines of a batch are settled one after the other, each
by a reply with a valid CRC, up to the first failure (`Batch`).
-/

namespace Gbb.ModbusExecutor

open Wrap

variable {c : BusConfig} {rx : Bytes} {t t' t₁ t₂ t₃ : Nat} {e : ModbusExecutor}

/-! ## The outcomes of a call -/

/-- `handle_rx_` works on a frame that has grown by what came in. -/
def withRx (e : ModbusExecutor) (frame : Bytes) (at' : UInt32) : ModbusExecutor :=
  { e with rxFrame := frame, lastRxByteAt := at' }

inductive LoopCase (c : BusConfig) (t₁ t₂ t₃ : Nat) (e : ModbusExecutor) :
    ModbusExecutor × List Event → Prop
  | rest : (e.state = .gap → reached (millis t₁) e.gapUntil = false) → e.state ≠ .rxWait →
      LoopCase c t₁ t₂ t₃ e (e, [])
  | sent : e.state = .gap → reached (millis t₁) e.gapUntil = true →
      LoopCase c t₁ t₂ t₃ e (transmitCurrent c t₁ t₂ e)
  | listening (frame : Bytes) (at' : UInt32) : e.state = .rxWait →
      LoopCase c t₁ t₂ t₃ e (e.withRx frame at', [])
  | failed (frame : Bytes) (at' : UInt32) (fault : LineFault) : e.state = .rxWait →
      fault ≠ .invalidHex →
      LoopCase c t₁ t₂ t₃ e (failLine t₂ fault (e.withRx frame at'))
  | accepted (frame : Bytes) (at' : UInt32) : e.state = .rxWait → 4 ≤ frame.length →
      crcOk frame = true →
      LoopCase c t₁ t₂ t₃ e (acceptReply t₂ t₃ (e.withRx frame at'))

theorem checkTimeout_case (hs : e.state = .rxWait) (frame : Bytes) (at' : UInt32) :
    LoopCase c t₁ t₂ t₃ e (checkTimeout c t t₂ (e.withRx frame at')) := by
  rw [checkTimeout]
  split
  · exact .failed frame at' _ hs (by decide)
  · exact .listening frame at' hs

theorem finishLineOk_case (hs : e.state = .rxWait) (frame : Bytes) (at' : UInt32) :
    LoopCase c t₁ t₂ t₃ e (finishLineOk t₂ t₃ (e.withRx frame at')) := by
  rw [finishLineOk]
  split
  · exact .failed frame at' _ hs (by decide)
  · next hlen =>
      split
      · exact .failed frame at' _ hs (by decide)
      · next hcrc =>
          rw [Bool.not_eq_false] at hcrc
          exact .accepted frame at' hs (Nat.le_of_not_lt hlen) hcrc

theorem loop_case (c : BusConfig) (rx : Bytes) (t₁ t₂ t₃ : Nat) (e : ModbusExecutor) :
    LoopCase c t₁ t₂ t₃ e (loop c rx t₁ t₂ t₃ e) := by
  cases hs : e.state
  case idle | done | transmit =>
    rw [loop, hs]
    exact .rest (by rw [hs]; exact fun h => nomatch h) (by rw [hs]; exact fun h => nomatch h)
  case gap =>
    rw [loop, hs]
    simp only []
    split
    · next hr => exact .sent hs hr
    · next hr =>
        rw [Bool.not_eq_true] at hr
        exact .rest (fun _ => hr) (by rw [hs]; exact fun h => nomatch h)
  case rxWait =>
    rw [loop, hs]
    simp only [handleRx]
    by_cases hshort : (receive t₁ rx e).rxFrame.length < 3
    · rw [if_pos hshort]
      exact checkTimeout_case hs _ _
    · rw [if_neg hshort]
      split
      · exact finishLineOk_case hs _ _
      · split
        · exact finishLineOk_case hs _ _
        · exact checkTimeout_case hs _ _

/-! ## The next line -/

theorem skipLines_spec (ls : List GbbLine) (k : Nat) :
    ∃ skipped rest, ls = skipped ++ rest ∧ skipLines ls k = k + skipped.length ∧
      (∀ l ∈ skipped, l.carries = false) ∧ ∀ l ∈ rest.head?, l.carries = true := by
  induction ls generalizing k with
  | nil => exact ⟨[], [], rfl, rfl, by simp, by simp⟩
  | cons l ls ih =>
      rw [skipLines]
      split
      · next hl => exact ⟨[], l :: ls, rfl, rfl, by simp, by simpa using hl⟩
      · next hl =>
          obtain ⟨skipped, rest, rfl, hi, hsk, hrest⟩ := ih (k + 1)
          refine ⟨l :: skipped, rest, rfl, ?_, ?_, hrest⟩
          · rw [hi, List.length_cons]
            omega
          · intro x hx
            rcases List.mem_cons.mp hx with rfl | hx
            · simpa using hl
            · exact hsk x hx

/-- What `start_next_line_` can come to: no line left, a line whose hex is no
frame, or a frame ready to go out. -/
inductive NextCase (t : Nat) (e : ModbusExecutor) : ModbusExecutor × List Event → Prop
  | finished (i : Nat) (skipped : List GbbLine) : e.header.lines.drop e.lineIndex = skipped →
      (∀ l ∈ skipped, l.carries = false) →
      NextCase t e (finishAll { e with lineIndex := i }, [])
  | badHex (skipped : List GbbLine) (line : GbbLine) (rest : List GbbLine) (tx : Bytes) :
      e.header.lines.drop e.lineIndex = skipped ++ line :: rest →
      (∀ l ∈ skipped, l.carries = false) → line.carries = true →
      NextCase t e (failLine t .invalidHex
        { e with lineIndex := e.lineIndex + skipped.length, txFrame := tx })
  | ready (skipped : List GbbLine) (line : GbbLine) (rest : List GbbLine) (frame : Bytes) :
      e.header.lines.drop e.lineIndex = skipped ++ line :: rest →
      (∀ l ∈ skipped, l.carries = false) → line.carries = true →
      hexDecode line.modbus = some frame → 4 ≤ frame.length →
      NextCase t e
        ({ e with
            lineIndex := e.lineIndex + skipped.length, txFrame := frame, state := .gap }, [])

theorem startNextLine_case (t : Nat) (e : ModbusExecutor) :
    NextCase t e (startNextLine t e) := by
  obtain ⟨skipped, rest, hdrop, hi, hsk, hrest⟩ :=
    skipLines_spec (e.header.lines.drop e.lineIndex) e.lineIndex
  simp only [startNextLine, hi]
  have hget : e.header.lines[e.lineIndex + skipped.length]? = rest.head? := by
    rw [← List.getElem?_drop, hdrop, List.getElem?_append_right (Nat.le_refl _), Nat.sub_self,
      List.head?_eq_getElem?]
  rw [hget]
  cases rest with
  | nil => exact .finished _ skipped (by rw [hdrop, List.append_nil]) hsk
  | cons line rest =>
      have hc : line.carries = true := hrest line rfl
      simp only [List.head?_cons]
      split
      · exact .badHex skipped line rest _ hdrop hsk hc
      · next hok =>
          rw [not_or, Bool.not_eq_false, Nat.not_lt] at hok
          exact .ready skipped line rest _ hdrop hsk hc (hexDecode_of_hexToBytes hok.1) hok.2

/-! ## Small facts -/

section
variable (t : Nat) (fault : LineFault) (e : ModbusExecutor)

@[simp] theorem failLine_state : (failLine t fault e).1.state = .done := rfl

@[simp] theorem failLine_gapUntil :
    (failLine t fault e).1.gapUntil = millis (t + e.nextGapMs.toNat) := millis_add _ _

@[simp] theorem failLine_lines :
    (failLine t fault e).1.header.lines = failFrom fault e.lineIndex e.header.lines := rfl

@[simp] theorem failLine_evs :
    (failLine t fault e).2 = [.failed t fault, .gapUntil (t + e.nextGapMs.toNat)] := rfl

end

theorem startNextLine_state (t : Nat) (e : ModbusExecutor) :
    (startNextLine t e).1.state = .gap ∨ (startNextLine t e).1.state = .done := by
  have h := startNextLine_case t e
  generalize startNextLine t e = r at h ⊢
  cases h with
  | finished => exact .inr rfl
  | badHex => exact .inr rfl
  | ready => exact .inl rfl

theorem start_state (t : Nat) (h : GbbHeader) (e : ModbusExecutor) :
    (start t h e).1.state = .gap ∨ (start t h e).1.state = .done :=
  startNextLine_state t _

/-- The batch goes on from where it is, or is over. -/
theorem startNextLine_onward (t : Nat) (e : ModbusExecutor) :
    (startNextLine t e).1.state = .done ∨
      ((startNextLine t e).1.state = .gap ∧ e.lineIndex ≤ (startNextLine t e).1.lineIndex) := by
  have h := startNextLine_case t e
  generalize startNextLine t e = r at h ⊢
  cases h with
  | finished => exact .inl rfl
  | badHex => exact .inl rfl
  | ready skipped => exact .inr ⟨rfl, Nat.le_add_right _ _⟩

theorem acceptReply_state (t t' : Nat) (e : ModbusExecutor) :
    (acceptReply t t' e).1.state = .gap ∨ (acceptReply t t' e).1.state = .done :=
  startNextLine_state t' _

/-- A batch that is in hand stays in hand. -/
theorem loop_state_idle (c : BusConfig) (rx : Bytes) (t₁ t₂ t₃ : Nat) (e : ModbusExecutor) :
    (loop c rx t₁ t₂ t₃ e).1.state = .idle ↔ e.state = .idle := by
  have h := loop_case c rx t₁ t₂ t₃ e
  generalize loop c rx t₁ t₂ t₃ e = r at h ⊢
  cases h with
  | rest => rfl
  | sent hs => simp [transmitCurrent, hs]
  | listening frame at' hs => simp [withRx]
  | failed frame at' fault hs => simp [hs]
  | accepted frame at' hs =>
      rw [hs]
      rcases acceptReply_state t₂ t₃ (e.withRx frame at') with h | h <;> simp [h]

/-! ## The request behind a header

A batch changes payloads and errors of lines and nothing else, so the request
can be read off its result. -/

/-- `h'` is `h` up to what a batch may do to the payloads. -/
structure SameRequest (h h' : GbbHeader) : Prop where
  fields : { h' with lines := [] } = { h with lines := [] }
  echoes : h'.lines.map GbbLine.echo = h.lines.map GbbLine.echo

theorem SameRequest.refl (h : GbbHeader) : SameRequest h h := ⟨rfl, rfl⟩

theorem SameRequest.trans {h h' h'' : GbbHeader} (h₁ : SameRequest h h')
    (h₂ : SameRequest h' h'') : SameRequest h h'' :=
  ⟨h₂.fields.trans h₁.fields, h₂.echoes.trans h₁.echoes⟩

theorem SameRequest.emergency {h h' : GbbHeader} (hs : SameRequest h h') :
    h'.emergency = h.emergency := by
  have h := congrArg GbbHeader.emergency hs.fields
  exact h

theorem map_echo_failFrom (fault : LineFault) (n : Nat) (ls : List GbbLine) :
    (failFrom fault n ls).map GbbLine.echo = ls.map GbbLine.echo := by
  induction ls generalizing n with
  | nil => cases n <;> rfl
  | cons l ls ih =>
      cases n with
      | zero =>
          rw [failFrom, List.map_cons, List.map_cons, List.map_map]
          rfl
      | succ n => rw [failFrom, List.map_cons, List.map_cons, ih]

theorem map_echo_modify (frame : Bytes) (n : Nat) (ls : List GbbLine) :
    (ls.modify n fun l => { l with modbus := bytesToHex frame }).map GbbLine.echo =
      ls.map GbbLine.echo := by
  induction ls generalizing n with
  | nil => cases n <;> rfl
  | cons l ls ih =>
      cases n with
      | zero => rfl
      | succ n => rw [List.modify_succ_cons, List.map_cons, List.map_cons, ih]

theorem startNextLine_sameRequest (t : Nat) (e : ModbusExecutor) :
    SameRequest e.header (startNextLine t e).1.header := by
  have h := startNextLine_case t e
  generalize startNextLine t e = r at h ⊢
  cases h with
  | finished => exact .refl _
  | badHex => exact ⟨rfl, map_echo_failFrom _ _ _⟩
  | ready => exact ⟨rfl, rfl⟩

theorem start_sameRequest (t : Nat) (h : GbbHeader) (e : ModbusExecutor) :
    SameRequest h (start t h e).1.header :=
  startNextLine_sameRequest t { e with header := h, lineIndex := 0, state := .gap }

theorem loop_sameRequest (c : BusConfig) (rx : Bytes) (t₁ t₂ t₃ : Nat) (e : ModbusExecutor) :
    SameRequest e.header (loop c rx t₁ t₂ t₃ e).1.header := by
  have h := loop_case c rx t₁ t₂ t₃ e
  generalize loop c rx t₁ t₂ t₃ e = r at h ⊢
  cases h with
  | rest => exact .refl _
  | sent => exact ⟨rfl, rfl⟩
  | listening => exact ⟨rfl, rfl⟩
  | failed => exact ⟨rfl, map_echo_failFrom _ _ _⟩
  | accepted frame at' hs =>
      have hmod : SameRequest e.header ((e.withRx frame at').settleLine t₂).header :=
        ⟨rfl, map_echo_modify frame _ _⟩
      exact hmod.trans (startNextLine_sameRequest t₃ _)

/-! ## The batch -/

/-- The lines that were answered, out of what a run emitted. -/
def answeredLines (evs : List Event) : List GbbLine :=
  evs.filterMap fun
    | .answered _ line _ => some line
    | _ => none

@[simp] theorem answeredLines_append (evs evs' : List Event) :
    answeredLines (evs ++ evs') = answeredLines evs ++ answeredLines evs' :=
  List.filterMap_append

/-- What a line the executor is through with has become. -/
def Settled (l l' : GbbLine) : Prop :=
  (l.carries = false ∧ l' = l) ∨
    (l.carries = true ∧ ∃ frame, 4 ≤ frame.length ∧ crcOk frame = true ∧
      l' = { l with modbus := bytesToHex frame })

theorem settled_of_skipped {skipped : List GbbLine}
    (h : ∀ l ∈ skipped, l.carries = false) : List.Forall₂ Settled skipped skipped := by
  induction skipped with
  | nil => exact .nil
  | cons l ls ih =>
      exact .cons (.inl ⟨h l (by simp), rfl⟩) (ih fun x hx => h x (by simp [hx]))

theorem filter_carries_skipped {skipped : List GbbLine}
    (h : ∀ l ∈ skipped, l.carries = false) : skipped.filter GbbLine.carries = [] :=
  List.filter_eq_nil_iff.mpr fun l hl => by simp [h l hl]

theorem filter_carries_append (pre : List GbbLine) {skipped : List GbbLine}
    (h : ∀ l ∈ skipped, l.carries = false) :
    (pre ++ skipped).filter GbbLine.carries = pre.filter GbbLine.carries := by
  rw [List.filter_append, filter_carries_skipped h, List.append_nil]

/-- The line a failure leaves behind. -/
def failedLine (fault : LineFault) (l : GbbLine) : GbbLine :=
  { clearModbus l with error := fault.message }

/-- A batch that was started with the lines `orig`, and its answered lines:
under way at its first unsettled line, through, or broken off at a line. -/
inductive Batch (orig : List GbbLine) : List GbbLine → ModbusExecutor → Prop
  | running {e : ModbusExecutor} (pre settled rest : List GbbLine) (line : GbbLine) :
      orig = pre ++ line :: rest → List.Forall₂ Settled pre settled →
      e.header.lines = settled ++ line :: rest → e.lineIndex = pre.length →
      line.carries = true → hexDecode line.modbus = some e.txFrame →
      4 ≤ e.txFrame.length → (e.state = .gap ∨ e.state = .rxWait) →
      Batch orig (pre.filter GbbLine.carries) e
  | through {e : ModbusExecutor} : e.state = .done →
      List.Forall₂ Settled orig e.header.lines →
      Batch orig (orig.filter GbbLine.carries) e
  | broken {e : ModbusExecutor} (pre settled rest : List GbbLine) (line : GbbLine)
      (fault : LineFault) :
      orig = pre ++ line :: rest → List.Forall₂ Settled pre settled →
      line.carries = true → e.state = .done →
      e.header.lines = settled ++ failedLine fault line :: rest.map clearModbus →
      Batch orig (pre.filter GbbLine.carries) e

/-- A failure leaves the lines before it alone. -/
theorem getElem?_failFrom_of_lt {fault : LineFault} {n i : Nat} {ls : List GbbLine} (h : i < n) :
    (failFrom fault n ls)[i]? = ls[i]? := by
  induction ls generalizing n i with
  | nil => cases n <;> rfl
  | cons l ls ih =>
      cases n with
      | zero => omega
      | succ n =>
          cases i with
          | zero => rfl
          | succ i => exact ih (by omega)

theorem getElem?_failFrom_self (fault : LineFault) (n : Nat) (ls : List GbbLine) :
    (failFrom fault n ls)[n]? = ls[n]?.map (failedLine fault) := by
  induction ls generalizing n with
  | nil => cases n <;> rfl
  | cons l ls ih =>
      cases n with
      | zero => rfl
      | succ n => exact ih n

theorem startNextLine_earlier (t : Nat) {e : ModbusExecutor} {i : Nat} (h : i < e.lineIndex) :
    (startNextLine t e).1.header.lines[i]? = e.header.lines[i]? := by
  have hc := startNextLine_case t e
  generalize startNextLine t e = r at hc ⊢
  cases hc with
  | finished => rfl
  | badHex => exact getElem?_failFrom_of_lt (by show i < e.lineIndex + _; omega)
  | ready => rfl

theorem failFrom_append (fault : LineFault) (settled rest : List GbbLine) (line : GbbLine) :
    failFrom fault settled.length (settled ++ line :: rest) =
      settled ++ failedLine fault line :: rest.map clearModbus := by
  induction settled with
  | nil => rfl
  | cons l ls ih => rw [List.length_cons, List.cons_append, failFrom, ih, List.cons_append]

theorem modify_append (f : GbbLine → GbbLine) (settled rest : List GbbLine) (line : GbbLine) :
    (settled ++ line :: rest).modify settled.length f = settled ++ f line :: rest := by
  induction settled with
  | nil => rfl
  | cons l ls ih =>
      rw [List.length_cons, List.cons_append, List.modify_succ_cons, ih, List.cons_append]

theorem Batch.failLine {orig pre settled rest : List GbbLine} {line : GbbLine}
    (fault : LineFault) (horig : orig = pre ++ line :: rest)
    (hset : List.Forall₂ Settled pre settled) (hc : line.carries = true)
    (hlines : e.header.lines = settled ++ line :: rest) (hi : e.lineIndex = pre.length) :
    Batch orig (pre.filter GbbLine.carries) (ModbusExecutor.failLine t fault e).1 := by
  refine .broken pre settled rest line fault horig hset hc rfl ?_
  rw [failLine_lines, hlines, hi, hset.length_eq, failFrom_append]

/-- From any cut between settled lines and the others, `start_next_line_` gets
to the next line that carries something, or to the end of the batch. -/
theorem Batch.next {orig pre settled tail : List GbbLine} (horig : orig = pre ++ tail)
    (hset : List.Forall₂ Settled pre settled) (hlines : e.header.lines = settled ++ tail)
    (hi : e.lineIndex = pre.length) :
    Batch orig (pre.filter GbbLine.carries) (startNextLine t e).1 ∧
      answeredLines (startNextLine t e).2 = [] := by
  have hdrop : e.header.lines.drop e.lineIndex = tail := by
    rw [hlines, hi, hset.length_eq, List.drop_left]
  have h := startNextLine_case t e
  generalize startNextLine t e = r at h ⊢
  cases h with
  | finished i skipped hd hsk =>
      obtain rfl : tail = skipped := hdrop.symm.trans hd
      refine ⟨?_, rfl⟩
      rw [← filter_carries_append pre hsk, ← horig]
      refine .through rfl ?_
      show List.Forall₂ Settled orig e.header.lines
      rw [horig, hlines]
      exact List.rel_append hset (settled_of_skipped hsk)
  | badHex skipped line rest tx hd hsk hc =>
      have htail : tail = skipped ++ line :: rest := hdrop.symm.trans hd
      refine ⟨?_, rfl⟩
      rw [← filter_carries_append pre hsk]
      have hset' := List.rel_append hset (settled_of_skipped hsk)
      have horig' : orig = (pre ++ skipped) ++ line :: rest := by
        rw [horig, htail, List.append_assoc]
      refine Batch.failLine .invalidHex horig' hset' hc ?_ ?_
      · rw [List.append_assoc, ← htail, ← hlines]
      · rw [List.length_append, ← hi]
  | ready skipped line rest frame hd hsk hc hhex hlen =>
      have htail : tail = skipped ++ line :: rest := hdrop.symm.trans hd
      refine ⟨?_, rfl⟩
      rw [← filter_carries_append pre hsk]
      have hset' := List.rel_append hset (settled_of_skipped hsk)
      refine .running _ _ rest line ?_ hset' ?_ ?_ hc hhex hlen (.inl rfl)
      · rw [horig, htail, List.append_assoc]
      · rw [List.append_assoc, ← htail, ← hlines]
      · rw [List.length_append, ← hi]

/-- The baud rate is no part of a batch. -/
theorem Batch.hint {orig answered : List GbbLine} (b : UInt32)
    (h : Batch orig answered e) : Batch orig answered { e with baudRateHint := b } := by
  cases h with
  | running pre settled rest line horig hset hlines hi hc hhex hlen hs =>
      exact .running pre settled rest line horig hset hlines hi hc hhex hlen hs
  | through hd hset => exact .through hd hset
  | broken pre settled rest line fault horig hset hc hd hlines =>
      exact .broken pre settled rest line fault horig hset hc hd hlines

/-- A batch under way stands at its first unsettled line. -/
theorem Batch.underWay {orig answered : List GbbLine} (h : Batch orig answered e)
    (hs : e.state = .gap ∨ e.state = .rxWait) :
    ∃ pre settled rest line, answered = pre.filter GbbLine.carries ∧
      orig = pre ++ line :: rest ∧ List.Forall₂ Settled pre settled ∧
      e.header.lines = settled ++ line :: rest ∧ e.lineIndex = pre.length ∧
      line.carries = true ∧ hexDecode line.modbus = some e.txFrame ∧ 4 ≤ e.txFrame.length := by
  cases h with
  | running pre settled rest line horig hset hlines hi hc hhex hlen =>
      exact ⟨pre, settled, rest, line, rfl, horig, hset, hlines, hi, hc, hhex, hlen⟩
  | through hd => rw [hd] at hs; simp at hs
  | broken _ _ _ _ _ _ _ _ hd => rw [hd] at hs; simp at hs

/-- The frame that is about to go out is one of the lines the batch began with. -/
theorem Batch.frame {orig answered : List GbbLine}
    (h : Batch orig answered e) (hs : e.state = .gap) :
    ∃ line ∈ orig, line.carries = true ∧ hexDecode line.modbus = some e.txFrame := by
  obtain ⟨pre, settled, rest, line, -, horig, -, -, -, hc, hhex, -⟩ := h.underWay (.inl hs)
  exact ⟨line, by rw [horig]; simp, hc, hhex⟩

theorem start_batch (t : Nat) (h : GbbHeader) (e : ModbusExecutor) :
    Batch h.lines [] (start t h e).1 ∧ answeredLines (start t h e).2 = [] :=
  @Batch.next t { e with header := h, lineIndex := 0, state := .gap } h.lines [] [] h.lines
    rfl .nil rfl rfl

/-- The line in hand is answered: the cut moves past it. -/
theorem Batch.accept {orig pre settled rest : List GbbLine} {line : GbbLine} {frame : Bytes}
    {at' : UInt32} (horig : orig = pre ++ line :: rest) (hset : List.Forall₂ Settled pre settled)
    (hlines : e.header.lines = settled ++ line :: rest) (hi : e.lineIndex = pre.length)
    (hc : line.carries = true) (hlen : 4 ≤ frame.length) (hcrc : crcOk frame = true) :
    Batch orig
      (pre.filter GbbLine.carries ++ answeredLines (acceptReply t t' (e.withRx frame at')).2)
      (acceptReply t t' (e.withRx frame at')).1 := by
  have hlines' : e.header.lines.modify e.lineIndex
      (fun l => { l with modbus := bytesToHex frame }) =
      (settled ++ [{ line with modbus := bytesToHex frame }]) ++ rest := by
    rw [hlines, hi, hset.length_eq, modify_append, List.append_assoc]
    rfl
  have hset' := List.rel_append hset
    (.cons (.inr ⟨hc, frame, hlen, hcrc, rfl⟩) .nil : List.Forall₂ Settled [line] _)
  have horig' : orig = (pre ++ [line]) ++ rest := by
    rw [horig, List.append_assoc]
    rfl
  have hi' : ((e.withRx frame at').settleLine t).lineIndex = (pre ++ [line]).length := by
    rw [List.length_append, ← hi]
    rfl
  obtain ⟨hb', hans⟩ := Batch.next (t := t') horig' hset' hlines' hi'
  have hline : e.header.lines.getD e.lineIndex default = line := by
    rw [hlines, hi, hset.length_eq, List.getD_eq_getElem?_getD,
      List.getElem?_append_right (Nat.le_refl _), Nat.sub_self]
    rfl
  have hacc : answeredLines (acceptReply t t' (e.withRx frame at')).2 = [line] := by
    show (e.header.lines.getD e.lineIndex default) :: answeredLines _ = _
    rw [hline]
    exact congrArg _ hans
  rw [hacc, show [line] = [line].filter GbbLine.carries by simp [hc], ← List.filter_append]
  exact hb'

/-- One call of `loop` keeps the account: whatever it answers is the next
unsettled line of the batch. -/
theorem Batch.loop {orig ans : List GbbLine} (hb : Batch orig ans e) :
    Batch orig (ans ++ answeredLines (loop c rx t₁ t₂ t₃ e).2) (loop c rx t₁ t₂ t₃ e).1 := by
  have h := loop_case c rx t₁ t₂ t₃ e
  generalize ModbusExecutor.loop c rx t₁ t₂ t₃ e = r at h ⊢
  cases h with
  | rest => simpa [answeredLines] using hb
  | sent hs =>
      obtain ⟨pre, settled, rest, line, rfl, horig, hset, hlines, hi, hc, hhex, hlen⟩ :=
        hb.underWay (.inl hs)
      rw [show answeredLines (transmitCurrent c t₁ t₂ e).2 = [] from rfl, List.append_nil]
      exact .running pre settled rest line horig hset hlines hi hc hhex hlen (.inr rfl)
  | listening frame at' hs =>
      obtain ⟨pre, settled, rest, line, rfl, horig, hset, hlines, hi, hc, hhex, hlen⟩ :=
        hb.underWay (.inr hs)
      rw [show answeredLines [] = [] from rfl, List.append_nil]
      exact .running pre settled rest line horig hset hlines hi hc hhex hlen (.inr hs)
  | failed frame at' fault hs =>
      obtain ⟨pre, settled, rest, line, rfl, horig, hset, hlines, hi, hc, -⟩ :=
        hb.underWay (.inr hs)
      rw [show answeredLines (ModbusExecutor.failLine t₂ fault (e.withRx frame at')).2 = [] from
        rfl, List.append_nil]
      exact Batch.failLine fault horig hset hc hlines hi
  | accepted frame at' hs hlen hcrc =>
      obtain ⟨pre, settled, rest, line, rfl, horig, hset, hlines, hi, hc, -⟩ :=
        hb.underWay (.inr hs)
      exact Batch.accept horig hset hlines hi hc hlen hcrc

end Gbb.ModbusExecutor
