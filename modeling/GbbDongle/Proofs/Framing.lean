import GbbDongle.Lib.Framing
import GbbDongle.Lib.History
import GbbDongle.Proofs.Executor

/-!
# Framing of replies

`handle_rx_` decides on every poll, from whatever has come in so far, whether
the reply is complete. For the function codes it knows that decision is a
`Framing.cut`: the header announces a length within the first three bytes, and
no announced length is shorter than five or longer than 260, so neither the
header nor the read limit of 300 bytes can get in its way.

So a line hears a reply as one piece, however the UART hands it out. Polls that
leave the frame short only wait, unless they come too late; the poll that
completes it ends the line with the first `L` bytes and forgets the others.
-/

namespace Gbb

open Wrap History Framing

namespace ModbusExecutor

variable {c : BusConfig} {rx frame S : Bytes} {L : Nat} {e : ModbusExecutor}

/-! ## The announced length -/

/-- The length `handle_rx_` waits for, once it has a header to read it from. -/
def announced (frame : Bytes) : Option Nat :=
  if frame.length < 3 ∨ expectedLength frame = 0 then none else some (expectedLength frame)

theorem announced_eq_some :
    announced frame = some L ↔ 3 ≤ frame.length ∧ 0 < L ∧ expectedLength frame = L := by
  rw [announced]
  split
  · next h =>
      constructor
      · intro hn
        cases hn
      · rintro ⟨hlen, hpos, rfl⟩
        omega
  · next h =>
      rw [Option.some.injEq]
      constructor
      · rintro rfl
        omega
      · rintro ⟨-, -, rfl⟩
        rfl

theorem expectedLength_append (more : Bytes) (h : 3 ≤ frame.length) :
    expectedLength (frame ++ more) = expectedLength frame := by
  match frame, h with
  | _ :: _ :: _ :: _, _ => rfl

/-- Five is the shortest length announced. -/
theorem le_expectedLength (h : expectedLength frame ≠ 0) : 5 ≤ expectedLength frame := by
  have h5 : expectedLength frame = 0 ∨ 5 ≤ expectedLength frame := by
    rw [expectedLength]
    repeat' split
    all_goals omega
  omega

theorem expectedLength_le (frame : Bytes) : expectedLength frame ≤ 260 := by
  have hn := (frame.getD 2 0).toNat_lt
  rw [expectedLength]
  repeat' split
  all_goals omega

theorem announced_delimits : Delimits announced where
  stable more h := by
    obtain ⟨hlen, hpos, hL⟩ := announced_eq_some.mp h
    refine announced_eq_some.mpr ⟨?_, hpos, ?_⟩
    · rw [List.length_append]
      omega
    · rw [expectedLength_append more hlen, hL]
  inside {heard n} h hle := by
    obtain ⟨-, hpos, hL⟩ := announced_eq_some.mp h
    have h5 : 5 ≤ expectedLength heard := le_expectedLength (by omega)
    have h3 : 3 ≤ (heard.take n).length := by
      rw [List.length_take]
      omega
    refine announced_eq_some.mpr ⟨h3, hpos, ?_⟩
    rw [← expectedLength_append (heard.drop n) h3, List.take_append_drop, hL]

/-! ## A call of `handle_rx_` -/

/-- What the frame holds once a call has read what there was to read. -/
def heardBy (e : ModbusExecutor) (rx : Bytes) : Bytes :=
  e.rxFrame ++ rx.take (maxFrameSize - e.rxFrame.length)

theorem heardBy_of_room (h : e.rxFrame.length + rx.length ≤ maxFrameSize) :
    e.heardBy rx = e.rxFrame ++ rx := by
  rw [heardBy, List.take_of_length_le (by omega)]

theorem receive_eq (t : Nat) (rx : Bytes) (e : ModbusExecutor) :
    ∃ at', receive t rx e = e.withRx (e.heardBy rx) at' ∧
      (e.rxFrame.length < (e.heardBy rx).length → at' = millis t) := by
  refine ⟨_, rfl, ?_⟩
  intro h
  rw [heardBy, List.length_append] at h
  rw [if_neg]
  rw [List.isEmpty_iff]
  intro hnil
  rw [hnil, List.length_nil] at h
  omega

/-- A call that has the whole frame ends the line with it. -/
theorem loop_of_cut (t₁ t₂ t₃ : Nat) (hs : e.state = .rxWait)
    (hcut : cut announced (e.heardBy rx) = some frame) :
    ∃ at', loop c rx t₁ t₂ t₃ e = finishLineOk t₂ t₃ (e.withRx frame at') ∧
      (e.rxFrame.length < (e.heardBy rx).length → at' = millis t₁) := by
  obtain ⟨at', hrecv, hat⟩ := receive_eq t₁ rx e
  refine ⟨at', ?_, hat⟩
  have ⟨hlen, hpos, hle, hframe⟩ : 3 ≤ (e.heardBy rx).length ∧
      0 < expectedLength (e.heardBy rx) ∧
      expectedLength (e.heardBy rx) ≤ (e.heardBy rx).length ∧
      frame = (e.heardBy rx).take (expectedLength (e.heardBy rx)) := by
    rw [cut] at hcut
    split at hcut
    · next n hn =>
        obtain ⟨hlen, hpos, rfl⟩ := announced_eq_some.mp hn
        split at hcut
        · next hle => exact ⟨hlen, hpos, hle, (Option.some.inj hcut).symm⟩
        · cases hcut
    · cases hcut
  rw [loop, hs]
  simp only [handleRx, hrecv]
  rw [if_neg (by exact Nat.not_lt.mpr hlen), if_pos ⟨hpos, hle⟩, hframe]
  rfl

/-- A call that has a part of a frame of a known function waits for the rest,
while there is time. -/
theorem loop_of_part (t₁ t₂ t₃ : Nat) (hs : e.state = .rxWait)
    (hcut : cut announced (e.heardBy rx) = none)
    (hknown : (e.heardBy rx).length < 3 ∨ expectedLength (e.heardBy rx) ≠ 0)
    (htime : elapsed (millis t₁) e.txDoneAt c.responseTimeoutMs = false) :
    ∃ at', loop c rx t₁ t₂ t₃ e = (e.withRx (e.heardBy rx) at', []) := by
  obtain ⟨at', hrecv, -⟩ := receive_eq t₁ rx e
  refine ⟨at', ?_⟩
  have hwait : checkTimeout c t₁ t₂ (e.withRx (e.heardBy rx) at') =
      (e.withRx (e.heardBy rx) at', []) := by
    refine if_neg ?_
    rw [Bool.not_eq_true]
    exact htime
  rw [loop, hs]
  simp only [handleRx, hrecv]
  by_cases hlen : (e.heardBy rx).length < 3
  · rw [if_pos (by exact hlen), hwait]
  · have hex := hknown.resolve_left hlen
    have hn : announced (e.heardBy rx) = some (expectedLength (e.heardBy rx)) :=
      announced_eq_some.mpr ⟨by omega, by omega, rfl⟩
    have hshort : ¬ expectedLength (e.heardBy rx) ≤ (e.heardBy rx).length := by
      intro hle
      rw [cut_eq hn, if_pos hle] at hcut
      cases hcut
    rw [if_neg (by exact hlen), if_neg (by exact fun h => hshort h.2),
      if_neg (by exact fun h => hex h.1), hwait]

/-! ## A reply in portions -/

/-- The bytes a series of calls finds in the UART. -/
def rxOf (calls : List LoopCall) : Bytes := calls.flatMap LoopCall.rx

theorem rxOf_append (calls calls' : List LoopCall) :
    rxOf (calls ++ calls') = rxOf calls ++ rxOf calls' :=
  List.flatMap_append

theorem rxOf_singleton (call : LoopCall) : rxOf [call] = call.rx := List.flatMap_singleton ..

/-- The frame at the beginning of a stream, by its second byte: an exception,
the answer to a read with a byte count of its own, or the echo of a write. -/
inductive FrameLength (S : Bytes) : Nat → Prop
  | exception : S.getD 1 0 &&& 0x80 ≠ 0 → FrameLength S 5
  | read : 0x01 ≤ S.getD 1 0 → S.getD 1 0 ≤ 0x04 → FrameLength S (3 + (S.getD 2 0).toNat + 2)
  | write : S.getD 1 0 ∈ [0x05, 0x06, 0x0F, 0x10] → FrameLength S 8

theorem bit7_of_le {x : UInt8} (h : x ≤ 0x04) : x &&& 0x80 = 0 := by
  have hall : ∀ b : BitVec 8, UInt8.ofBitVec b ≤ 0x04 → UInt8.ofBitVec b &&& 0x80 = 0 := by
    decide +kernel
  exact hall x.toBitVec h

theorem FrameLength.expected (h : FrameLength S L) : expectedLength S = L := by
  rw [expectedLength]
  cases h with
  | exception hx => rw [if_pos hx]
  | read hlo hhi =>
      rw [if_neg (by exact fun h => h (bit7_of_le hhi)), if_pos ⟨hlo, hhi⟩]
  | write hw =>
      simp only [List.mem_cons, List.not_mem_nil, or_false] at hw
      rcases hw with hw | hw | hw | hw <;> rw [hw] <;> rfl

theorem FrameLength.announced (h : FrameLength S L) (hlen : L ≤ S.length) :
    announced S = some L ∧ 5 ≤ L ∧ L ≤ 260 := by
  have hL := h.expected
  have hle := expectedLength_le S
  have hpos : expectedLength S ≠ 0 := by
    rw [hL]
    cases h <;> omega
  have h5 := le_expectedLength hpos
  exact ⟨announced_eq_some.mpr ⟨by omega, by omega, hL⟩, by omega, by omega⟩

/-- Whoever has heard only a part of a stream of a known function knows it. -/
theorem expectedLength_of_part {more : Bytes} (hS : announced (frame ++ more) = some L) :
    frame.length < 3 ∨ expectedLength frame ≠ 0 := by
  by_cases hlen : frame.length < 3
  · exact .inl hlen
  · obtain ⟨-, hpos, hL⟩ := announced_eq_some.mp hS
    rw [expectedLength_append more (by omega)] at hL
    exact .inr (by omega)

/-- Calls that together leave the frame short, none of them late, only wait. -/
theorem after_part (hs : e.state = .rxWait) (hrx : e.rxFrame = []) {calls : List LoopCall}
    {more : Bytes} (hS : announced (rxOf calls ++ more) = some L) (hL : L ≤ maxFrameSize)
    (hshort : (rxOf calls).length < L)
    (htime : ∀ call ∈ calls, elapsed (millis call.t₁) e.txDoneAt c.responseTimeoutMs = false) :
    (∃ at', after (poll c) calls e = e.withRx (rxOf calls) at') ∧
      ∀ m ∈ moves (poll c) calls e, m.evs = [] := by
  induction calls using List.reverseRecOn generalizing more with
  | nil =>
      refine ⟨⟨e.lastRxByteAt, ?_⟩, fun m hm => nomatch hm⟩
      show e = { e with rxFrame := [], lastRxByteAt := e.lastRxByteAt }
      rw [← hrx]
  | append_singleton calls call ih =>
      rw [rxOf_append, rxOf_singleton] at hS hshort
      have hsum := hshort
      rw [List.length_append] at hsum
      obtain ⟨⟨at₀, hafter⟩, hquiet⟩ := ih (by rwa [← List.append_assoc]) (by omega)
        (fun x hx => htime x (List.mem_append_left _ hx))
      have hheard : (e.withRx (rxOf calls) at₀).heardBy call.rx = rxOf calls ++ call.rx :=
        heardBy_of_room (by show (rxOf calls).length + _ ≤ _; omega)
      have hcut : cut announced (rxOf calls ++ call.rx) = none := by
        rw [announced_delimits.cut_part hS, if_neg (by omega)]
      obtain ⟨at', hstep⟩ := loop_of_part (c := c) (e := e.withRx (rxOf calls) at₀) call.t₁
        call.t₂ call.t₃ hs (by rwa [hheard]) (by rw [hheard]; exact expectedLength_of_part hS)
        (htime call (by simp))
      rw [hheard] at hstep
      constructor
      · refine ⟨at', ?_⟩
        rw [after_append, hafter, rxOf_append, rxOf_singleton]
        exact congrArg Prod.fst hstep
      · intro m hm
        rw [moves_append, hafter] at hm
        rcases List.mem_append.mp hm with hm | hm
        · exact hquiet m hm
        · rw [List.mem_singleton.mp hm]
          exact congrArg Prod.snd hstep

/-- What a complete frame makes of a line. -/
def outcome (call : LoopCall) (e : ModbusExecutor) (frame : Bytes) :
    ModbusExecutor × List Event :=
  if crcOk frame then acceptReply call.t₂ call.t₃ (e.withRx frame (millis call.t₁))
  else failLine call.t₂ .invalidCrc (e.withRx frame (millis call.t₁))

/-- The line whose turn it was in `e` is over, and what became of it was up to
the reply `frame` alone. -/
structure Finishes (frame : Bytes) (e : ModbusExecutor) (r : ModbusExecutor × List Event) :
    Prop where
  left : r.1.state = .done ∨ (r.1.state = .gap ∧ e.lineIndex < r.1.lineIndex)
  accepted : crcOk frame = true → ∀ line, e.header.lines[e.lineIndex]? = some line →
    r.1.header.lines[e.lineIndex]? = some { line with modbus := bytesToHex frame } ∧
      ∃ t, r.2.head? = some (.answered t line frame)
  rejected : crcOk frame = false → ∀ line, e.header.lines[e.lineIndex]? = some line →
    r.1.header.lines[e.lineIndex]? =
      some { line with hasModbus := false, modbus := [], error := text "Invalid CRC in response" }

theorem outcome_finishes (call : LoopCall) (e : ModbusExecutor) (frame : Bytes) :
    Finishes frame e (outcome call e frame) := by
  constructor
  · rw [outcome]
    split
    · exact startNextLine_onward call.t₃ ((e.withRx frame (millis call.t₁)).settleLine call.t₂)
    · exact .inl rfl
  · intro hcrc line hline
    rw [outcome, if_pos hcrc]
    have hlines : (acceptReply call.t₂ call.t₃
        (e.withRx frame (millis call.t₁))).1.header.lines[e.lineIndex]? = _ :=
      startNextLine_earlier call.t₃ (Nat.lt_succ_self e.lineIndex)
    refine ⟨hlines.trans ?_, call.t₂, ?_⟩
    · show (e.header.lines.modify e.lineIndex _)[e.lineIndex]? = _
      rw [List.getElem?_modify_eq, hline]
      rfl
    · show some (Event.answered call.t₂ (e.header.lines.getD e.lineIndex default) frame) = _
      rw [List.getD_eq_getElem?_getD, hline]
      rfl
  · intro hcrc line hline
    rw [outcome, hcrc, if_neg Bool.false_ne_true, failLine_lines]
    have hself := getElem?_failFrom_self .invalidCrc e.lineIndex e.header.lines
    rw [hline] at hself
    exact hself

/-- The call that completes the frame ends the line with it, however much it
brings and however late it is. -/
theorem poll_completing {call : LoopCall} {more : Bytes} (hs : e.state = .rxWait)
    (hS : announced (e.rxFrame ++ call.rx ++ more) = some L) (h5 : 5 ≤ L)
    (hL : L ≤ maxFrameSize) (hshort : e.rxFrame.length < L)
    (hfull : L ≤ (e.rxFrame ++ call.rx).length) :
    poll c call e = outcome call e ((e.rxFrame ++ call.rx ++ more).take L) := by
  rw [List.length_append] at hfull
  have hheard : L ≤ (e.heardBy call.rx).length := by
    rw [heardBy, List.length_append, List.length_take]
    omega
  have hsplit : e.rxFrame ++ call.rx ++ more = e.heardBy call.rx ++
      (call.rx.drop (maxFrameSize - e.rxFrame.length) ++ more) := by
    rw [heardBy, List.append_assoc, List.append_assoc, ← List.append_assoc (List.take _ _),
      List.take_append_drop]
  rw [hsplit] at hS ⊢
  have hcut := announced_delimits.cut_part hS
  rw [if_pos hheard] at hcut
  obtain ⟨at', hloop, hat⟩ := loop_of_cut (c := c) call.t₁ call.t₂ call.t₃ hs hcut
  rw [poll, hloop, hat (by omega), outcome, finishLineOk]
  generalize hframe : List.take L _ = frame
  have hlen : ¬ frame.length < 4 := by
    rw [← hframe, List.length_take, List.length_append]
    omega
  rw [if_neg (by exact hlen)]
  cases hcrc : crcOk frame with
  | true => rw [if_neg (by show ¬ crcOk frame = false; rw [hcrc]; decide), if_pos rfl]
  | false => rw [if_pos (by exact hcrc), if_neg Bool.false_ne_true]

end ModbusExecutor

open ModbusExecutor

/-- However a reply is handed out, the line waits through every call that
leaves the frame short, ends in the first call that does not, and ends as it
would had the whole stream come in that one call: with its first `L` bytes,
accepted if their CRC matches. -/
theorem framing_independent (c : BusConfig) (tSend tDone : Nat) (e : ModbusExecutor)
    {S : Bytes} {L : Nat} (hL : FrameLength S L) (hlen : L ≤ S.length)
    (calls : List LoopCall) (hS : rxOf calls = S)
    (htime : ∀ before call later, calls = before ++ call :: later →
      (rxOf (before ++ [call])).length < L →
        elapsed (millis call.t₁) (millis tDone) c.responseTimeoutMs = false) :
    let sent := (transmitCurrent c tSend tDone e).1
    ∃ before last later, calls = before ++ last :: later ∧
      (rxOf before).length < L ∧ L ≤ (rxOf (before ++ [last])).length ∧
      (∀ part rest, before = part ++ rest →
        ∃ at', after (poll c) part sent = sent.withRx (rxOf part) at') ∧
      (∀ m ∈ moves (poll c) before sent, m.evs = []) ∧
      poll c last (after (poll c) before sent) = outcome last sent (S.take L) ∧
      poll c { last with rx := S } sent = outcome last sent (S.take L) ∧
      Finishes (S.take L) sent (outcome last sent (S.take L)) := by
  obtain ⟨hann, h5, hmax⟩ := hL.announced hlen
  have hroom : L ≤ maxFrameSize := by
    show L ≤ 300
    omega
  subst hS
  intro sent
  obtain ⟨before, last, later, rfl, hshort, hfull⟩ :=
    exists_completing LoopCall.rx calls (by omega) hlen
  have hstream : rxOf (before ++ last :: later) = rxOf before ++ last.rx ++ rxOf later := by
    rw [List.append_cons, rxOf_append, rxOf_append, rxOf_singleton]
  have hpart : ∀ part rest, before = part ++ rest →
      (∃ at', after (poll c) part sent = sent.withRx (rxOf part) at') ∧
        ∀ m ∈ moves (poll c) part sent, m.evs = [] := by
    rintro part rest rfl
    have hsum : (rxOf (part ++ rest)).length < L := hshort
    rw [rxOf_append, List.length_append] at hsum
    have hmore : announced (rxOf part ++ rxOf (rest ++ last :: later)) = some L := by
      rwa [← rxOf_append, ← List.append_assoc]
    refine after_part rfl rfl hmore hroom (by omega) ?_
    intro call hcall
    obtain ⟨pre, post, rfl⟩ := List.append_of_mem hcall
    refine htime pre call (post ++ rest ++ last :: later) (by simp) ?_
    rw [List.append_cons, rxOf_append, List.length_append] at hsum
    omega
  obtain ⟨⟨at₀, hafter⟩, hquiet⟩ := hpart before [] (List.append_nil before).symm
  refine ⟨before, last, later, rfl, hshort, ?_, fun part rest h => (hpart part rest h).1, hquiet,
    ?_, ?_, outcome_finishes last sent _⟩
  · rwa [rxOf_append, rxOf_singleton]
  · rw [hafter, hstream]
    rw [hstream] at hann
    exact poll_completing (e := sent.withRx (rxOf before) at₀) rfl hann h5 hroom hshort hfull
  · have hwhole : announced (sent.rxFrame ++ rxOf (before ++ last :: later) ++ []) = some L := by
      rw [List.append_nil]
      exact hann
    have hpos : sent.rxFrame.length < L := by
      show 0 < L
      omega
    have hone : poll c { last with rx := rxOf (before ++ last :: later) } sent =
        outcome last sent ((sent.rxFrame ++ rxOf (before ++ last :: later) ++ []).take L) :=
      poll_completing rfl hwhole h5 hroom hpos hlen
    rw [List.append_nil] at hone
    exact hone

/-- A register read back in four portions, the header cut, one of them empty
and the last with a byte too many. -/
def portions : List LoopCall :=
  [⟨[0x01], 20, 20, 20⟩, ⟨[], 30, 30, 30⟩, ⟨[0x03, 0x02, 0x00], 40, 40, 40⟩,
    ⟨[0x05, 0x78, 0x47, 0xFF], 50, 50, 50⟩]

theorem framing_independent_portions :
    let sent := (transmitCurrent {} 0 10 { header := { lines := [{}] } }).1
    ∃ before last later, portions = before ++ last :: later ∧
      (∀ m ∈ moves (poll {}) before sent, m.evs = []) ∧
      poll {} last (after (poll {}) before sent) =
        poll {} { last with rx := rxOf portions } sent ∧
      (poll {} last (after (poll {}) before sent)).1.header.lines[0]? =
        some { modbus := text "01030200057847" } := by
  intro sent
  have htimely : ∀ call ∈ portions,
      elapsed (millis call.t₁) (millis 10) ({} : BusConfig).responseTimeoutMs = false := by
    decide +kernel
  obtain ⟨before, last, later, hsplit, -, -, -, hquiet, hended, hwhole, hfinishes⟩ :=
    @framing_independent {} 0 10 { header := { lines := [{}] } } (rxOf portions) 7
      (.read (by decide) (by decide)) (by decide) portions rfl
      fun before call later hsplit _ => htimely call (by rw [hsplit]; simp)
  refine ⟨before, last, later, hsplit, hquiet, hended.trans hwhole.symm, ?_⟩
  rw [hended]
  refine (hfinishes.accepted (by decide +kernel) {} rfl).1.trans ?_
  decide +kernel

end Gbb
