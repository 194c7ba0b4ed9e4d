import GbbDongle.Lib.History
import GbbDongle.Proofs.Executor

/-!
# The result of a batch

From `start` to `take_result` the executor is a machine of its own: it is given
calls of `loop`, whatever the UART holds for each, and now and then a new baud
rate. Two accounts are kept of such a run.

`Progress` says how far the batch is: the lines before the one in hand have
been exchanged with the inverter, one frame and one reply for each that carries
a payload, and the executor is waiting to send the line in hand or waiting for
its reply. `finish_line_ok_` moves the cut by a line, every way of failing
closes the account with a `Finished` one.

`Listening` says where the reply in hand comes from: since the call that sent
the request nothing but polls have happened, and the frame is what they found
in the UART. It is what ties an accepted reply to received bytes, and the
timeout to the end of the transmission.
-/

namespace Gbb

open Wrap History

namespace ModbusExecutor

variable {c : BusConfig} {t : Nat} {e : ModbusExecutor} {h : GbbHeader}
  {orig pre settled rest tail : List GbbLine} {line : GbbLine} {fault : LineFault}
  {errors : UInt32} {frames replies sent tried : List Bytes} {evs evs' : List Event}

/-! ## What goes over the bus -/

def framesOf (evs : List Event) : List Bytes :=
  evs.filterMap fun
    | .wrote _ frame => some frame
    | _ => none

def repliesOf (evs : List Event) : List Bytes :=
  evs.filterMap fun
    | .answered _ _ reply => some reply
    | _ => none

@[simp] theorem framesOf_append : framesOf (evs ++ evs') = framesOf evs ++ framesOf evs' :=
  List.filterMap_append

@[simp] theorem repliesOf_append : repliesOf (evs ++ evs') = repliesOf evs ++ repliesOf evs' :=
  List.filterMap_append

/-- Lines that are through, with the frames sent for them, the replies to
these, and what they have become: a line without a payload is passed over, any
other is sent as the bytes its hex spells and takes its reply in their place. -/
inductive Exchanged : List GbbLine → List Bytes → List Bytes → List GbbLine → Prop
  | nil : Exchanged [] [] [] []
  | skipped {line : GbbLine} {lines lines' : List GbbLine} {frames replies : List Bytes} :
      line.carries = false → Exchanged lines frames replies lines' →
      Exchanged (line :: lines) frames replies (line :: lines')
  | answered {line : GbbLine} {lines lines' : List GbbLine} {frames replies : List Bytes}
      {frame reply : Bytes} : line.carries = true → hexDecode line.modbus = some frame →
      4 ≤ reply.length → crcOk reply = true → Exchanged lines frames replies lines' →
      Exchanged (line :: lines) (frame :: frames) (reply :: replies)
        ({ line with modbus := bytesToHex reply } :: lines')

theorem Exchanged.length_eq (hx : Exchanged pre frames replies settled) :
    settled.length = pre.length := by
  induction hx with
  | nil => rfl
  | skipped _ _ ih => rw [List.length_cons, List.length_cons, ih]
  | answered _ _ _ _ _ ih => rw [List.length_cons, List.length_cons, ih]

theorem Exchanged.append {lines lines' : List GbbLine} {frames' replies' : List Bytes}
    (hx : Exchanged pre frames replies settled)
    (hy : Exchanged lines frames' replies' lines') :
    Exchanged (pre ++ lines) (frames ++ frames') (replies ++ replies') (settled ++ lines') := by
  induction hx with
  | nil => exact hy
  | skipped hc _ ih => exact .skipped hc ih
  | answered hc hhex hlen hcrc _ ih => exact .answered hc hhex hlen hcrc ih

theorem Exchanged.skip {lines : List GbbLine} (h : ∀ l ∈ lines, l.carries = false) :
    Exchanged lines [] [] lines := by
  induction lines with
  | nil => exact .nil
  | cons l ls ih => exact .skipped (h l (by simp)) (ih fun x hx => h x (by simp [hx]))

/-- The frames sent for the line a batch breaks off at. -/
inductive Tried : LineFault → GbbLine → List Bytes → Prop
  | never {line : GbbLine} : Tried .invalidHex line []
  | once {fault : LineFault} {line : GbbLine} {frame : Bytes} : fault ≠ .invalidHex →
      hexDecode line.modbus = some frame → Tried fault line [frame]

/-- A batch of the lines `orig` that is over, from `errors` errors before it:
through, or broken off at a line. -/
inductive Finished (orig : List GbbLine) (errors : UInt32) :
    List Bytes → List Bytes → ModbusExecutor → Prop
  | through {frames replies : List Bytes} {e : ModbusExecutor} :
      Exchanged orig frames replies e.header.lines → e.errorCount = errors →
      Finished orig errors frames replies e
  | broken {sent tried replies : List Bytes} {e : ModbusExecutor}
      (pre settled rest : List GbbLine) (line : GbbLine) (fault : LineFault) :
      orig = pre ++ line :: rest → line.carries = true →
      Exchanged pre sent replies settled → Tried fault line tried →
      e.header.lines = settled ++ failedLine fault line :: rest.map clearModbus →
      e.errorCount = errors + 1 →
      Finished orig errors (sent ++ tried) replies e

/-! ## The account of a batch -/

/-- The executor stands at `line`, with the lines before it exchanged. -/
structure AtLine (orig : List GbbLine) (errors : UInt32) (pre settled rest : List GbbLine)
    (line : GbbLine) (e : ModbusExecutor) : Prop where
  orig_eq : orig = pre ++ line :: rest
  lines_eq : e.header.lines = settled ++ line :: rest
  index_eq : e.lineIndex = pre.length
  carries : line.carries = true
  errors_eq : e.errorCount = errors

inductive Progress (orig : List GbbLine) (errors : UInt32) :
    List Bytes → List Bytes → ModbusExecutor → Prop
  | waiting {frames replies : List Bytes} {e : ModbusExecutor}
      (pre settled rest : List GbbLine) (line : GbbLine) :
      AtLine orig errors pre settled rest line e → Exchanged pre frames replies settled →
      hexDecode line.modbus = some e.txFrame → e.state = .gap →
      Progress orig errors frames replies e
  | sent {frames replies : List Bytes} {e : ModbusExecutor}
      (pre settled rest : List GbbLine) (line : GbbLine) :
      AtLine orig errors pre settled rest line e → Exchanged pre frames replies settled →
      hexDecode line.modbus = some e.txFrame → e.state = .rxWait →
      Progress orig errors (frames ++ [e.txFrame]) replies e
  | finished {frames replies : List Bytes} {e : ModbusExecutor} : e.state = .done →
      Finished orig errors frames replies e → Progress orig errors frames replies e

/-- The frame, the clock and the baud rate are no part of where it stands. -/
theorem AtLine.of_eq {e' : ModbusExecutor} (ha : AtLine orig errors pre settled rest line e)
    (hh : e'.header = e.header) (hi : e'.lineIndex = e.lineIndex)
    (hn : e'.errorCount = e.errorCount) : AtLine orig errors pre settled rest line e' :=
  ⟨ha.orig_eq, hh ▸ ha.lines_eq, hi ▸ ha.index_eq, ha.carries, hn ▸ ha.errors_eq⟩

theorem AtLine.fail (ha : AtLine orig errors pre settled rest line e)
    (hx : Exchanged pre sent replies settled) (ht : Tried fault line tried) :
    Finished orig errors (sent ++ tried) replies (failLine t fault e).1 := by
  refine .broken pre settled rest line fault ha.orig_eq ha.carries hx ht ?_ ?_
  · rw [failLine_lines, ha.lines_eq, ha.index_eq, ← hx.length_eq, failFrom_append]
  · rw [← ha.errors_eq]
    rfl

/-- From any cut between exchanged lines and the others, `start_next_line_`
gets to the next line with a payload, or to the end of the batch. -/
theorem Progress.next (horig : orig = pre ++ tail) (hx : Exchanged pre frames replies settled)
    (hlines : e.header.lines = settled ++ tail) (hi : e.lineIndex = pre.length)
    (herr : e.errorCount = errors) :
    Progress orig errors frames replies (startNextLine t e).1 ∧
      framesOf (startNextLine t e).2 = [] ∧ repliesOf (startNextLine t e).2 = [] := by
  have hdrop : e.header.lines.drop e.lineIndex = tail := by
    rw [hlines, hi, ← hx.length_eq, List.drop_left]
  have hn := startNextLine_case t e
  generalize startNextLine t e = r at hn ⊢
  cases hn with
  | finished i skipped hd hsk =>
      obtain rfl : tail = skipped := hdrop.symm.trans hd
      have hall := hx.append (Exchanged.skip hsk)
      rw [← horig, ← hlines, List.append_nil, List.append_nil] at hall
      exact ⟨.finished rfl (.through hall herr), rfl, rfl⟩
  | badHex skipped line rest tx hd hsk hc =>
      have htail : tail = skipped ++ line :: rest := hdrop.symm.trans hd
      have hall := hx.append (Exchanged.skip hsk)
      have ha : AtLine orig errors (pre ++ skipped) (settled ++ skipped) rest line
          { e with lineIndex := e.lineIndex + skipped.length, txFrame := tx } := by
        refine ⟨?_, ?_, ?_, hc, herr⟩
        · rw [horig, htail, List.append_assoc]
        · rw [List.append_assoc, ← htail, ← hlines]
        · rw [List.length_append, ← hi]
      have hfin := ha.fail (t := t) hall .never
      rw [List.append_nil, List.append_nil, List.append_nil] at hfin
      exact ⟨.finished rfl hfin, rfl, rfl⟩
  | ready skipped line rest frame hd hsk hc hhex hlen =>
      have htail : tail = skipped ++ line :: rest := hdrop.symm.trans hd
      have hall := hx.append (Exchanged.skip hsk)
      rw [List.append_nil, List.append_nil] at hall
      refine ⟨.waiting _ _ rest line ⟨?_, ?_, ?_, hc, herr⟩ hall hhex rfl, rfl, rfl⟩
      · rw [horig, htail, List.append_assoc]
      · rw [List.append_assoc, ← htail, ← hlines]
      · rw [List.length_append, ← hi]

theorem start_progress (t : Nat) (h : GbbHeader) (e : ModbusExecutor) :
    Progress h.lines e.errorCount (framesOf (start t h e).2) (repliesOf (start t h e).2)
      (start t h e).1 := by
  have hall : h.lines = [] ++ h.lines := rfl
  obtain ⟨hp, hf, hr⟩ := Progress.next (t := t)
    (e := { e with header := h, lineIndex := 0, state := .gap }) hall .nil hall rfl rfl
  rw [start, hf, hr]
  exact hp

/-- The line in hand takes a valid reply, and the cut moves past it. -/
theorem Progress.accept {reply : Bytes} {at' : UInt32} {t' : Nat}
    (ha : AtLine orig errors pre settled rest line e)
    (hx : Exchanged pre frames replies settled) (hhex : hexDecode line.modbus = some e.txFrame)
    (hlen : 4 ≤ reply.length) (hcrc : crcOk reply = true) :
    Progress orig errors
      (frames ++ [e.txFrame] ++ framesOf (acceptReply t t' (e.withRx reply at')).2)
      (replies ++ repliesOf (acceptReply t t' (e.withRx reply at')).2)
      (acceptReply t t' (e.withRx reply at')).1 := by
  have hall := hx.append (.answered ha.carries hhex hlen hcrc .nil)
  have hlines : ((e.withRx reply at').settleLine t).header.lines =
      settled ++ [{ line with modbus := bytesToHex reply }] ++ rest := by
    show e.header.lines.modify e.lineIndex _ = _
    rw [ha.lines_eq, ha.index_eq, ← hx.length_eq, modify_append, List.append_assoc]
    rfl
  have hi : ((e.withRx reply at').settleLine t).lineIndex = (pre ++ [line]).length := by
    rw [List.length_append, ← ha.index_eq]
    rfl
  have horig : orig = pre ++ [line] ++ rest := by
    rw [ha.orig_eq, List.append_assoc]
    rfl
  obtain ⟨hp, hf, hr⟩ := Progress.next (t := t') horig hall hlines hi ha.errors_eq
  have hf' : framesOf (acceptReply t t' (e.withRx reply at')).2 = [] := hf
  have hr' : repliesOf (acceptReply t t' (e.withRx reply at')).2 = [reply] :=
    congrArg (reply :: ·) hr
  rw [hf', hr', List.append_nil]
  exact hp

theorem Progress.of_gap (hp : Progress orig errors frames replies e) (hs : e.state = .gap) :
    ∃ pre settled rest line, AtLine orig errors pre settled rest line e ∧
      Exchanged pre frames replies settled ∧ hexDecode line.modbus = some e.txFrame := by
  cases hp with
  | waiting pre settled rest line ha hx hhex _ => exact ⟨pre, settled, rest, line, ha, hx, hhex⟩
  | sent _ _ _ _ _ _ _ hrx => cases hs.symm.trans hrx
  | finished hd => cases hs.symm.trans hd

theorem Progress.of_rxWait (hp : Progress orig errors frames replies e)
    (hs : e.state = .rxWait) :
    ∃ sent pre settled rest line, frames = sent ++ [e.txFrame] ∧
      AtLine orig errors pre settled rest line e ∧ Exchanged pre sent replies settled ∧
      hexDecode line.modbus = some e.txFrame := by
  cases hp with
  | waiting _ _ _ _ _ _ _ hgap => cases hs.symm.trans hgap
  | @sent frames _ _ pre settled rest line ha hx hhex _ =>
      exact ⟨frames, pre, settled, rest, line, rfl, ha, hx, hhex⟩
  | finished hd => cases hs.symm.trans hd

theorem Progress.loop {rx : Bytes} {t₁ t₂ t₃ : Nat} (hp : Progress orig errors frames replies e) :
    Progress orig errors (frames ++ framesOf (loop c rx t₁ t₂ t₃ e).2)
      (replies ++ repliesOf (loop c rx t₁ t₂ t₃ e).2) (loop c rx t₁ t₂ t₃ e).1 := by
  have hl := loop_case c rx t₁ t₂ t₃ e
  generalize ModbusExecutor.loop c rx t₁ t₂ t₃ e = r at hl ⊢
  have hquiet : frames ++ framesOf [] = frames ∧ replies ++ repliesOf [] = replies :=
    ⟨List.append_nil _, List.append_nil _⟩
  cases hl with
  | rest =>
      rw [hquiet.1, hquiet.2]
      exact hp
  | sent hs =>
      obtain ⟨pre, settled, rest, line, ha, hx, hhex⟩ := hp.of_gap hs
      have ha' : AtLine orig errors pre settled rest line (transmitCurrent c t₁ t₂ e).1 :=
        ha.of_eq rfl rfl rfl
      rw [show repliesOf (transmitCurrent c t₁ t₂ e).2 = [] from rfl, List.append_nil]
      exact .sent pre settled rest line ha' hx hhex rfl
  | listening frame at' hs =>
      obtain ⟨sent, pre, settled, rest, line, rfl, ha, hx, hhex⟩ := hp.of_rxWait hs
      have ha' : AtLine orig errors pre settled rest line (e.withRx frame at') :=
        ha.of_eq rfl rfl rfl
      rw [hquiet.1, hquiet.2]
      exact .sent pre settled rest line ha' hx hhex hs
  | failed frame at' fault hs hfault =>
      obtain ⟨sent, pre, settled, rest, line, rfl, ha, hx, hhex⟩ := hp.of_rxWait hs
      have ha' : AtLine orig errors pre settled rest line (e.withRx frame at') :=
        ha.of_eq rfl rfl rfl
      rw [failLine_evs, show framesOf [_, _] = [] from rfl, show repliesOf [_, _] = [] from rfl,
        List.append_nil, List.append_nil]
      exact .finished rfl (ha'.fail hx (.once hfault hhex))
  | accepted reply at' hs hlen hcrc =>
      obtain ⟨sent, pre, settled, rest, line, rfl, ha, hx, hhex⟩ := hp.of_rxWait hs
      exact Progress.accept ha hx hhex hlen hcrc

/-- The baud rate is no part of the account. -/
theorem Progress.hint (b : UInt32) (hp : Progress orig errors frames replies e) :
    Progress orig errors frames replies { e with baudRateHint := b } := by
  cases hp with
  | waiting pre settled rest line ha hx hhex hs =>
      exact .waiting pre settled rest line (ha.of_eq rfl rfl rfl) hx hhex hs
  | sent pre settled rest line ha hx hhex hs =>
      exact .sent (e := { e with baudRateHint := b }) pre settled rest line
        (ha.of_eq rfl rfl rfl) hx hhex hs
  | finished hd hf =>
      refine .finished hd ?_
      cases hf with
      | through hx herr => exact .through hx herr
      | broken pre settled rest line fault horig hc hx ht hlines herr =>
          exact .broken pre settled rest line fault horig hc hx ht hlines herr

theorem Progress.serve (hp : Progress orig errors frames replies e) (call : BusCall) :
    Progress orig errors (frames ++ framesOf (serve c call e).2)
      (replies ++ repliesOf (serve c call e).2) (serve c call e).1 := by
  cases call with
  | poll call => exact hp.loop
  | baudRate baud =>
      have hh := hp.hint (if baud = 0 then 9600 else baud)
      rw [← List.append_nil frames, ← List.append_nil replies] at hh
      exact hh

/-- A step of a batch under way. -/
abbrev BusMove := Move ModbusExecutor BusCall Event

/-- Everything a batch has emitted: in `start`, and in its steps. -/
def emitted (t : Nat) (h : GbbHeader) (e : ModbusExecutor) (ms : List BusMove) : List Event :=
  (start t h e).2 ++ ms.flatMap Move.evs

theorem emitted_snoc (ms : List BusMove) (m : BusMove) :
    emitted t h e (ms ++ [m]) = emitted t h e ms ++ m.evs := by
  rw [emitted, emitted, List.flatMap_append, List.flatMap_singleton, List.append_assoc]

theorem run_progress (c : BusConfig) (t : Nat) (h : GbbHeader) (e : ModbusExecutor)
    (calls : List BusCall) :
    Progress h.lines e.errorCount
      (framesOf (emitted t h e (moves (serve c) calls (start t h e).1)))
      (repliesOf (emitted t h e (moves (serve c) calls (start t h e).1)))
      (after (serve c) calls (start t h e).1) := by
  refine moves_run.history (H := fun ms u =>
    Progress h.lines e.errorCount (framesOf (emitted t h e ms)) (repliesOf (emitted t h e ms)) u)
    ?_ ?_
  · rw [emitted, List.flatMap_nil, List.append_nil]
    exact start_progress t h e
  · intro ms m _ hp hm
    have hs := hp.serve (c := c) m.act
    rw [hm] at hs
    rw [emitted_snoc, framesOf_append, repliesOf_append]
    exact hs

/-! ## What a finished batch leaves of the lines -/

/-- `l'` is `l` but for its payload and its error. -/
def SameLine (l l' : GbbLine) : Prop :=
  l' = { l with hasModbus := l'.hasModbus, modbus := l'.modbus, error := l'.error }

theorem Exchanged.sameLines (hx : Exchanged pre frames replies settled) :
    List.Forall₂ SameLine pre settled := by
  induction hx with
  | nil => exact .nil
  | skipped _ _ ih => exact .cons rfl ih
  | answered _ _ _ _ _ ih => exact .cons rfl ih

theorem sameLines_clear (lines : List GbbLine) :
    List.Forall₂ SameLine lines (lines.map clearModbus) := by
  induction lines with
  | nil => exact .nil
  | cons l ls ih => exact .cons rfl ih

theorem Finished.sameLines (hf : Finished orig errors frames replies e) :
    List.Forall₂ SameLine orig e.header.lines := by
  cases hf with
  | through hx _ => exact hx.sameLines
  | broken pre settled rest line fault horig _ hx _ hlines _ =>
      rw [horig, hlines]
      exact List.rel_append hx.sameLines (.cons rfl (sameLines_clear rest))

/-! ## Where a reply comes from -/

/-- A poll in RX_WAIT, with the bytes it works on. -/
inductive RxCase (c : BusConfig) (call : LoopCall) (e : ModbusExecutor) :
    ModbusExecutor × List Event → Prop
  | listening : elapsed (millis call.t₁) e.txDoneAt c.responseTimeoutMs = false →
      RxCase c call e (receive call.t₁ call.rx e, [])
  | failed (frame : Bytes) (at' : UInt32) (fault : LineFault) :
      RxCase c call e (failLine call.t₂ fault (e.withRx frame at'))
  | accepted (reply : Bytes) (at' : UInt32) : reply <+: (receive call.t₁ call.rx e).rxFrame →
      RxCase c call e (acceptReply call.t₂ call.t₃ (e.withRx reply at'))

theorem checkTimeout_rx (call : LoopCall) :
    RxCase c call e (checkTimeout c call.t₁ call.t₂ (receive call.t₁ call.rx e)) := by
  rw [checkTimeout]
  split
  · exact .failed _ _ _
  · next hlate =>
      rw [Bool.not_eq_true] at hlate
      exact .listening hlate

theorem finishLineOk_rx (call : LoopCall) (frame : Bytes) (at' : UInt32)
    (hpre : frame <+: (receive call.t₁ call.rx e).rxFrame) :
    RxCase c call e (finishLineOk call.t₂ call.t₃ (e.withRx frame at')) := by
  rw [finishLineOk]
  split
  · exact .failed _ _ _
  · split
    · exact .failed _ _ _
    · exact .accepted _ _ hpre

theorem poll_rx (call : LoopCall) (hs : e.state = .rxWait) : RxCase c call e (poll c call e) := by
  rw [poll, loop, hs]
  simp only [handleRx]
  by_cases hshort : (receive call.t₁ call.rx e).rxFrame.length < 3
  · rw [if_pos hshort]
    exact checkTimeout_rx call
  · rw [if_neg hshort]
    split
    · exact finishLineOk_rx call _ _ (List.take_prefix _ _)
    · split
      · exact finishLineOk_rx call _ _ (List.prefix_refl _)
      · exact checkTimeout_rx call

/-- What a step finds in the UART. -/
def BusCall.found : BusCall → Bytes
  | .poll call => call.rx
  | .baudRate _ => []

def foundIn (ms : List BusMove) : Bytes := ms.flatMap fun m => BusCall.found m.act

/-- The step that sends a request: its call of `loop` writes the frame. -/
structure Sending (m : BusMove) (call : LoopCall) : Prop where
  act : m.act = .poll call
  evs : m.evs = [.wrote call.t₁ m.pre.txFrame]

/-- Since `call` sent the request the steps `heard` have brought the frame. -/
structure Listening (ms : List BusMove) (call : LoopCall) (heard : List BusMove)
    (e : ModbusExecutor) : Prop where
  since : ∃ before m, ms = before ++ m :: heard ∧ Sending m call
  quiet : ∀ m ∈ heard, m.evs = []
  frame : e.rxFrame = (foundIn heard).take maxFrameSize
  txDone : e.txDoneAt = millis call.t₂

theorem receive_frame {found : Bytes} (t : Nat) (rx : Bytes)
    (hf : e.rxFrame = found.take maxFrameSize) :
    (receive t rx e).rxFrame = (found ++ rx).take maxFrameSize := by
  show e.rxFrame ++ rx.take (maxFrameSize - e.rxFrame.length) = _
  rw [hf, List.take_append, List.length_take]
  congr 2
  omega

/-- A step that emits nothing adds what it found. -/
theorem Listening.heard {ms heard : List BusMove} {call : LoopCall} {m : BusMove}
    (hl : Listening ms call heard m.pre) (hevs : m.evs = [])
    (hframe : m.post.rxFrame = (foundIn heard ++ BusCall.found m.act).take maxFrameSize)
    (hdone : m.post.txDoneAt = m.pre.txDoneAt) :
    Listening (ms ++ [m]) call (heard ++ [m]) m.post := by
  obtain ⟨before, m₀, hms, hsend⟩ := hl.since
  refine ⟨⟨before, m₀, ?_, hsend⟩, ?_, ?_, ?_⟩
  · rw [hms, List.append_assoc, List.cons_append]
  · intro x hx
    rcases List.mem_append.mp hx with hx | hx
    · exact hl.quiet x hx
    · rw [List.mem_singleton.mp hx, hevs]
  · rw [hframe, foundIn, foundIn, List.flatMap_append, List.flatMap_singleton]
  · rw [hdone, hl.txDone]

/-- The move a call makes. -/
def busMove (c : BusConfig) (call : BusCall) (e : ModbusExecutor) : BusMove :=
  ⟨e, call, (serve c call e).2, (serve c call e).1⟩

theorem eq_busMove {m : BusMove} (hm : serve c m.act m.pre = (m.post, m.evs)) :
    m = busMove c m.act m.pre := by
  obtain ⟨pre, act, evs, post⟩ := m
  rw [busMove, hm]

theorem serve_away (call : BusCall) (hs : e.state ≠ .rxWait) :
    (serve c call e).2 = [] ∧ (serve c call e).1.state = e.state ∨
      ∃ poll, call = .poll poll ∧ serve c call e = transmitCurrent c poll.t₁ poll.t₂ e := by
  cases call with
  | baudRate baud => exact .inl ⟨rfl, rfl⟩
  | poll call =>
      have hc := loop_case c call.rx call.t₁ call.t₂ call.t₃ e
      rw [serve, poll]
      generalize loop c call.rx call.t₁ call.t₂ call.t₃ e = r at hc ⊢
      cases hc with
      | rest _ _ => exact .inl ⟨rfl, rfl⟩
      | sent _ _ => exact .inr ⟨call, rfl, rfl⟩
      | listening _ _ h | failed _ _ _ h | accepted _ _ h => exact absurd h hs

/-- A step into RX_WAIT sends a request, or stays and listens. -/
theorem serve_listening {ms : List BusMove} {call : BusCall}
    (hl : e.state = .rxWait → ∃ sending heard, Listening ms sending heard e)
    (hs : (serve c call e).1.state = .rxWait) :
    ∃ sending heard, Listening (ms ++ [busMove c call e]) sending heard (serve c call e).1 := by
  by_cases hpre : e.state = .rxWait
  · obtain ⟨sending, heard, hl⟩ := hl hpre
    cases call with
    | baudRate baud =>
        refine ⟨sending, _, hl.heard (m := busMove c (.baudRate baud) e) rfl ?_ rfl⟩
        show e.rxFrame = (foundIn heard ++ []).take maxFrameSize
        rw [List.append_nil]
        exact hl.frame
    | poll call =>
        have hc := poll_rx (c := c) call hpre
        rw [busMove]
        rw [serve] at hs ⊢
        generalize poll c call e = r at hc hs ⊢
        cases hc with
        | listening _ =>
            exact ⟨sending, _, hl.heard (m := ⟨e, .poll call, [], receive call.t₁ call.rx e⟩) rfl
              (receive_frame _ _ hl.frame) rfl⟩
        | failed frame at' fault => cases hs
        | accepted reply at' _ =>
            rcases acceptReply_state call.t₂ call.t₃ (e.withRx reply at') with h | h
            · cases h.symm.trans hs
            · cases h.symm.trans hs
  · rcases serve_away (c := c) call hpre with ⟨-, hstay⟩ | ⟨poll, rfl, hsent⟩
    · rw [hstay] at hs
      exact absurd hs hpre
    · refine ⟨poll, [], ⟨ms, _, rfl, rfl, ?_⟩, (fun x hx => nomatch hx), ?_, ?_⟩
      · exact congrArg Prod.snd hsent
      · rw [hsent]
        rfl
      · rw [hsent]
        rfl

theorem run_listening {e₀ u : ModbusExecutor} {ms : List BusMove} (h₀ : e₀.state ≠ .rxWait)
    (hrun : Run (fun m => serve c m.act m.pre = (m.post, m.evs)) e₀ ms u)
    (hs : u.state = .rxWait) : ∃ sending heard, Listening ms sending heard u := by
  revert hs
  refine hrun.history (H := fun ms u =>
    u.state = .rxWait → ∃ sending heard, Listening ms sending heard u) ?_ ?_
  · intro hs
    exact absurd hs h₀
  · intro ms m _ hl hm hs
    rw [eq_busMove hm] at hs ⊢
    exact serve_listening hl hs

/-- Only a poll in RX_WAIT answers, and with a beginning of its frame. -/
theorem answered_prefix {call : BusCall} {reply : Bytes}
    (hev : Event.answered t line reply ∈ (serve c call e).2) :
    e.state = .rxWait ∧ ∃ poll, call = .poll poll ∧
      reply <+: (receive poll.t₁ poll.rx e).rxFrame := by
  by_cases hpre : e.state = .rxWait
  · cases call with
    | baudRate baud => cases hev
    | poll call =>
        refine ⟨hpre, call, rfl, ?_⟩
        have hc := poll_rx (c := c) call hpre
        rw [serve] at hev
        generalize poll c call e = r at hc hev
        cases hc with
        | listening _ => cases hev
        | failed frame at' fault => simp at hev
        | accepted reply' at' hreply =>
            have hnext : Event.answered t line reply ∉
                (startNextLine call.t₃ ((e.withRx reply' at').settleLine call.t₂)).2 := by
              intro hmem
              have hn := startNextLine_case call.t₃ ((e.withRx reply' at').settleLine call.t₂)
              generalize startNextLine call.t₃ _ = r at hn hmem
              cases hn with
              | finished => cases hmem
              | badHex => simp at hmem
              | ready => cases hmem
            rcases List.mem_cons.mp hev with heq | hmem
            · cases heq
              exact hreply
            · rcases List.mem_cons.mp hmem with heq | hmem
              · cases heq
              · exact absurd hmem hnext
  · rcases serve_away (c := c) call hpre with ⟨hnil, -⟩ | ⟨poll, rfl, hsent⟩
    · rw [hnil] at hev
      cases hev
    · rw [hsent] at hev
      simp [transmitCurrent] at hev

theorem run_sameRequest {e₀ u : ModbusExecutor} {ms : List BusMove}
    (hrun : Run (fun m => serve c m.act m.pre = (m.post, m.evs)) e₀ ms u)
    (h₀ : SameRequest h e₀.header) : SameRequest h u.header := by
  refine hrun.invariant (I := fun u => SameRequest h u.header) h₀ ?_
  intro m hm hs
  rw [eq_busMove hm]
  refine hs.trans ?_
  show SameRequest m.pre.header (serve c m.act m.pre).1.header
  cases m.act with
  | poll call => exact loop_sameRequest c call.rx call.t₁ call.t₂ call.t₃ m.pre
  | baudRate baud => exact .refl _

theorem Progress.done (hp : Progress orig errors frames replies e) (hd : e.state = .done) :
    Finished orig errors frames replies e := by
  cases hp with
  | waiting _ _ _ _ _ _ _ hs => cases hs.symm.trans hd
  | sent _ _ _ _ _ _ _ hs => cases hs.symm.trans hd
  | finished _ hfin => exact hfin

/-- A poll whose clock shows the timeout gone by leaves RX_WAIT. -/
theorem poll_leaves {call : LoopCall} (hs : e.state = .rxWait)
    (htime : elapsed (millis call.t₁) e.txDoneAt c.responseTimeoutMs = true) :
    (poll c call e).1.state ≠ .rxWait := by
  have hc := poll_rx (c := c) call hs
  generalize poll c call e = r at hc ⊢
  cases hc with
  | listening hlate =>
      rw [htime] at hlate
      cases hlate
  | failed frame at' fault =>
      intro h
      cases h
  | accepted reply at' _ =>
      intro h
      rcases acceptReply_state call.t₂ call.t₃ (e.withRx reply at') with h' | h'
      · cases h'.symm.trans h
      · cases h'.symm.trans h

end ModbusExecutor

open ModbusExecutor

/-- Whatever the UART brings and whenever `loop` is called: a batch that is done
has exchanged its lines up to its end or to the line it broke off at, the
replies it took are beginnings of what it received since the request, and it
does not wait for one beyond the timeout, as the 32-bit clock shows it. -/
theorem batch_semantics (c : BusConfig) (t : Nat) (h : GbbHeader) (e : ModbusExecutor)
    (calls : List BusCall) :
    let ms := moves (serve c) calls (start t h e).1
    let e' := after (serve c) calls (start t h e).1
    (e'.state = .done →
      { e'.header with lines := h.lines } = h ∧
      List.Forall₂ SameLine h.lines e'.header.lines ∧
      Finished h.lines e.errorCount (framesOf (emitted t h e ms)) (repliesOf (emitted t h e ms))
        e') ∧
    (∀ before m later t' line reply, ms = before ++ m :: later →
      Event.answered t' line reply ∈ m.evs →
      ∃ sending heard, Listening before sending heard m.pre ∧
        reply <+: foundIn (heard ++ [m])) ∧
    (e'.state = .rxWait → ∃ sending heard, Listening ms sending heard e' ∧
      ∀ call, sending.t₂ ≤ call.t₁ →
        c.responseTimeoutMs.toNat ≤ (call.t₁ - sending.t₂) % 2 ^ 32 →
        (poll c call e').1.state ≠ .rxWait) := by
  intro ms e'
  have h₀ : (start t h e).1.state ≠ .rxWait := by
    intro hs
    rcases start_state t h e with hst | hst
    · cases hst.symm.trans hs
    · cases hst.symm.trans hs
  have hrun : Run (fun m => serve c m.act m.pre = (m.post, m.evs)) (start t h e).1 ms e' :=
    moves_run
  refine ⟨?_, ?_, ?_⟩
  · intro hdone
    have hsame := run_sameRequest hrun (start_sameRequest t h e)
    have hfin : Finished h.lines e.errorCount (framesOf (emitted t h e ms))
        (repliesOf (emitted t h e ms)) e' :=
      (run_progress c t h e calls).done hdone
    exact ⟨congrArg (fun x : GbbHeader => { x with lines := h.lines }) hsame.fields,
      hfin.sameLines, hfin⟩
  · intro before m later t' line reply hms hev
    rw [hms] at hrun
    obtain ⟨hbefore, hm, -⟩ := hrun.at
    rw [eq_busMove hm] at hev
    obtain ⟨hpre, call, hact, hreply⟩ := answered_prefix hev
    obtain ⟨sending, heard, hl⟩ := run_listening h₀ hbefore hpre
    refine ⟨sending, heard, hl, hreply.trans ?_⟩
    rw [receive_frame _ _ hl.frame, foundIn, foundIn, List.flatMap_append, List.flatMap_singleton,
      hact]
    exact List.take_prefix _ _
  · intro hs
    obtain ⟨sending, heard, hl⟩ := run_listening h₀ hrun hs
    refine ⟨sending, heard, hl, ?_⟩
    intro call hle htime
    refine poll_leaves hs ?_
    rw [hl.txDone]
    exact (elapsed_of_le hle).mpr htime

/-- Registers to read, a line with nothing to send, and the same read again. -/
def twoReads : GbbHeader where
  lines :=
    [{ lineNo := 1, hasModbus := true, modbus := text "01030204000345B2" },
      { lineNo := 2 },
      { lineNo := 3, hasModbus := true, modbus := text "01030204000345B2" }]

/-- The first is answered in two portions, the second never. -/
def twoReadsCalls : List BusCall :=
  [.poll ⟨[], 0, 10, 0⟩, .poll ⟨[0x01, 0x03], 40, 40, 40⟩, .baudRate 19200,
    .poll ⟨[0x02, 0x00, 0x05, 0x78, 0x47], 50, 50, 50⟩, .poll ⟨[], 60, 60, 60⟩,
    .poll ⟨[], 200, 210, 0⟩, .poll ⟨[], 1300, 1300, 0⟩]

theorem batch_semantics_reads :
    let e' := after (serve {}) twoReadsCalls (start 0 twoReads {}).1
    e'.state = .done ∧
      Finished twoReads.lines 0
        [[0x01, 0x03, 0x02, 0x04, 0x00, 0x03, 0x45, 0xB2],
          [0x01, 0x03, 0x02, 0x04, 0x00, 0x03, 0x45, 0xB2]]
        [[0x01, 0x03, 0x02, 0x00, 0x05, 0x78, 0x47]] e' := by
  intro e'
  have hdone : e'.state = .done := by decide +kernel
  have hfin := ((batch_semantics {} 0 twoReads {} twoReadsCalls).1 hdone).2.2
  have hframes : framesOf (emitted 0 twoReads {}
      (moves (serve {}) twoReadsCalls (start 0 twoReads {}).1)) =
      [[0x01, 0x03, 0x02, 0x04, 0x00, 0x03, 0x45, 0xB2],
        [0x01, 0x03, 0x02, 0x04, 0x00, 0x03, 0x45, 0xB2]] := by decide +kernel
  have hreplies : repliesOf (emitted 0 twoReads {}
      (moves (serve {}) twoReadsCalls (start 0 twoReads {}).1)) =
      [[0x01, 0x03, 0x02, 0x00, 0x05, 0x78, 0x47]] := by decide +kernel
  rw [hframes, hreplies] at hfin
  exact ⟨hdone, hfin⟩

/-- A poll one wrap of the clock after the request, well beyond the timeout of a
second, finds no time gone by and goes on waiting. -/
theorem timeout_missed_after_wrap :
    let e' := after (serve {}) [.poll ⟨[], 0, 10, 0⟩] (start 0 twoReads {}).1
    let late : LoopCall := ⟨[], 10 + 2 ^ 32, 10 + 2 ^ 32, 0⟩
    e'.state = .rxWait ∧ e'.txDoneAt = millis 10 ∧
      10 + ({} : BusConfig).responseTimeoutMs.toNat ≤ late.t₁ ∧
      (poll {} late e').1.state = .rxWait := by
  decide +kernel

end Gbb
