import GbbDongle.Proofs.BatchResult
import GbbDongle.Proofs.Bench

/-!
# A batch comes to its end

`loop` waits for nothing, so the executor only gets on when it is called. When
two calls are never more than `d` milliseconds apart, a line costs at most its
gap, the response timeout, and twice `d` for the calls that notice the end of
each. `Due` keeps the account: the instant by which the batch is over, which
every call leaves where it is. Both comparisons of the executor look at a clock
that wraps; a deadline that is looked at every `d` milliseconds is never more
than half a wrap away, if it was not when the batch began.
-/

namespace Gbb

open Wrap History

namespace ModbusExecutor

variable {c : BusConfig} {d D t g : Nat} {e : ModbusExecutor} {h : GbbHeader} {a b : LoopCall}

/-- `b` is the call of `loop` after `a`: its readings are later, and the last of
them comes at most `d` milliseconds after the first of `a`. -/
structure Follows (d : Nat) (a b : LoopCall) : Prop where
  after : a.t₃ ≤ b.t₁
  first : b.t₁ ≤ b.t₂
  second : b.t₂ ≤ b.t₃
  soon : b.t₃ ≤ a.t₁ + d

instance (d : Nat) (a b : LoopCall) : Decidable (Follows d a b) :=
  decidable_of_iff (a.t₃ ≤ b.t₁ ∧ b.t₁ ≤ b.t₂ ∧ b.t₂ ≤ b.t₃ ∧ b.t₃ ≤ a.t₁ + d)
    ⟨fun h => ⟨h.1, h.2.1, h.2.2.1, h.2.2.2⟩, fun h => ⟨h.after, h.first, h.second, h.soon⟩⟩

/-- The longest silence the configuration asks for. -/
def longestGap (c : BusConfig) : Nat := max c.readGapMs.toNat c.writeGapMs.toNat

/-- What a line costs at most. -/
def lineTime (c : BusConfig) (d : Nat) : Nat :=
  longestGap c + c.responseTimeoutMs.toNat + 2 * d

/-- The lines with a payload. -/
def payloads (ls : List GbbLine) : Nat := (ls.filter GbbLine.carries).length

/-- The lines that come after the one in hand. -/
def toCome (e : ModbusExecutor) : Nat := payloads (e.header.lines.drop (e.lineIndex + 1))

theorem payloads_skip {skipped rest : List GbbLine} {line : GbbLine}
    (hsk : ∀ l ∈ skipped, l.carries = false) (hc : line.carries = true) :
    payloads (skipped ++ line :: rest) = payloads rest + 1 := by
  rw [payloads, payloads, List.filter_append, filter_carries_skipped hsk, List.nil_append,
    List.filter_cons_of_pos hc, List.length_cons]

theorem gapAfter_le (c : BusConfig) (frame : Bytes) : (gapAfter c frame).toNat ≤ longestGap c := by
  rw [gapAfter, longestGap]
  split <;> omega

/-- The batch is over by `D`, `a` being the last call of `loop`. -/
inductive Due (c : BusConfig) (d : Nat) (a : LoopCall) (D : Nat) (e : ModbusExecutor) : Prop
  | ended : e.state ≠ .gap → e.state ≠ .rxWait → Due c d a D e
  | gap (g : Nat) : e.state = .gap → e.gapUntil = millis g → a.t₁ + d < g + 2 ^ 31 →
      max g a.t₁ + c.responseTimeoutMs.toNat + 2 * d + toCome e * lineTime c d ≤ D →
      Due c d a D e
  | rxWait (s : Nat) : e.state = .rxWait → e.txDoneAt = millis s → s ≤ a.t₃ →
      a.t₁ ≤ s + c.responseTimeoutMs.toNat → e.nextGapMs.toNat ≤ longestGap c →
      s + c.responseTimeoutMs.toNat + d + toCome e * lineTime c d ≤ D →
      Due c d a D e

/-- Once a call is later than that, the executor has nothing in hand. -/
theorem Due.over_of_lt (hd : Due c d a D e) (hlate : D < a.t₁) :
    e.state ≠ .gap ∧ e.state ≠ .rxWait := by
  cases hd with
  | ended hgap hrx => exact ⟨hgap, hrx⟩
  | gap g hs hg hnear hle => omega
  | rxWait s hs htx hle hin hgap hdue => omega

/-- So a batch under way is not late. -/
theorem Due.underWay (hdue : Due c d a D e) (hs : e.state = .gap ∨ e.state = .rxWait) :
    a.t₁ ≤ D := by
  by_contra hlate
  obtain ⟨hgap, hrx⟩ := hdue.over_of_lt (Nat.lt_of_not_le hlate)
  rcases hs with hs | hs
  · exact hgap hs
  · exact hrx hs

/-- The next line is in hand, or none is left. -/
theorem startNextLine_due (hg : e.gapUntil = millis g) (hnear : a.t₁ + d < g + 2 ^ 31)
    (hle : max g a.t₁ + payloads (e.header.lines.drop e.lineIndex) * lineTime c d ≤
      D + longestGap c) :
    Due c d a D (startNextLine t e).1 := by
  have hc := startNextLine_case t e
  generalize startNextLine t e = r at hc ⊢
  cases hc with
  | finished i skipped hd hsk => exact .ended (by simp [finishAll]) (by simp [finishAll])
  | badHex skipped line rest tx hd hsk hc => exact .ended (by simp) (by simp)
  | ready skipped line rest frame hd hsk hc hhex hlen =>
      refine .gap g rfl hg hnear ?_
      have hrest : e.header.lines.drop (e.lineIndex + skipped.length + 1) = rest := by
        have hsplit : e.lineIndex + skipped.length + 1 = e.lineIndex + (skipped.length + 1) := by
          omega
        rw [hsplit, ← List.drop_drop, hd, ← List.drop_drop, List.drop_left, List.drop_one,
          List.tail_cons]
      rw [hd, payloads_skip hsk hc, Nat.add_mul, Nat.one_mul] at hle
      show _ + payloads (e.header.lines.drop (e.lineIndex + skipped.length + 1)) * _ ≤ D
      rw [hrest]
      generalize payloads rest * lineTime c d = k at hle ⊢
      rw [lineTime] at hle
      omega

/-- A batch starts with the time for all its lines. -/
theorem start_due (hg : e.gapUntil = millis g) (hahead : g ≤ t + longestGap c)
    (hnear : t + d < g + 2 ^ 31) (ha : a.t₁ ≤ t) :
    Due c d a (t + payloads h.lines * lineTime c d) (start t h e).1 := by
  refine startNextLine_due (e := { e with header := h, lineIndex := 0, state := .gap }) hg
    (by omega) ?_
  show max g a.t₁ + payloads (h.lines.drop 0) * lineTime c d ≤ _
  rw [List.drop_zero]
  omega

theorem Due.mono {D' : Nat} (hdue : Due c d a D e) (hle : D ≤ D') : Due c d a D' e := by
  cases hdue with
  | ended hgap hrx => exact .ended hgap hrx
  | gap g hs hg hnear hin => exact .gap g hs hg hnear (hin.trans hle)
  | rxWait s hs htx hs' hin hgap hin' => exact .rxWait s hs htx hs' hin hgap (hin'.trans hle)

/-- The reply of the line in hand, or its failure, comes in time for the next. -/
theorem Due.accept {frame : Bytes} {at' : UInt32} {s : Nat} (hf : Follows d a b)
    (hin : a.t₁ ≤ s + c.responseTimeoutMs.toNat) (hgap : e.nextGapMs.toNat ≤ longestGap c)
    (hd : d < 2 ^ 31)
    (hdue : s + c.responseTimeoutMs.toNat + d + toCome e * lineTime c d ≤ D) :
    Due c d b D (acceptReply b.t₂ b.t₃ (e.withRx frame at')).1 := by
  have hstamp : ((e.withRx frame at').settleLine b.t₂).gapUntil =
      millis (b.t₂ + e.nextGapMs.toNat) := millis_add _ _
  have hlines : payloads (((e.withRx frame at').settleLine b.t₂).header.lines.drop
      ((e.withRx frame at').settleLine b.t₂).lineIndex) = toCome e := by
    show payloads ((e.header.lines.modify e.lineIndex _).drop (e.lineIndex + 1)) = _
    rw [List.drop_modify_of_lt _ _ _ _ (Nat.lt_succ_self _)]
    rfl
  refine startNextLine_due hstamp ?_ ?_
  · have := hf.first
    omega
  · rw [hlines]
    have h₁ := hf.first
    have h₂ := hf.second
    have h₃ := hf.soon
    omega

/-- A call of `loop` that comes in time keeps the account. -/
theorem Due.poll (hdue : Due c d a D e) (hf : Follows d a b)
    (hd : c.responseTimeoutMs.toNat + d < 2 ^ 31) : Due c d b D (poll c b e).1 := by
  cases hdue with
  | ended hgap hrx =>
      have hc := loop_case c b.rx b.t₁ b.t₂ b.t₃ e
      rw [ModbusExecutor.poll]
      generalize loop c b.rx b.t₁ b.t₂ b.t₃ e = r at hc ⊢
      cases hc with
      | rest _ _ => exact .ended hgap hrx
      | sent hs => exact absurd hs hgap
      | listening _ _ hs | failed _ _ _ hs | accepted _ _ hs => exact absurd hs hrx
  | gap g hs hg hnear hle =>
      have hsoon := hf.soon
      have hfirst := hf.first
      have hsecond := hf.second
      have hc := loop_case c b.rx b.t₁ b.t₂ b.t₃ e
      rw [ModbusExecutor.poll]
      generalize loop c b.rx b.t₁ b.t₂ b.t₃ e = r at hc ⊢
      cases hc with
      | rest hnot _ =>
          have hearly : b.t₁ < g := by
            by_contra hlate
            have hnot := hnot hs
            rw [hg] at hnot
            have hreached := (reached_of_le (Nat.le_of_not_lt hlate)).mpr (by omega)
            rw [hreached] at hnot
            cases hnot
          refine .gap g hs hg (by omega) ?_
          show max g b.t₁ + c.responseTimeoutMs.toNat + 2 * d + toCome e * lineTime c d ≤ D
          omega
      | sent _ _ =>
          refine .rxWait b.t₂ rfl rfl hsecond (by omega) (gapAfter_le c _) ?_
          show b.t₂ + c.responseTimeoutMs.toNat + d + toCome e * lineTime c d ≤ D
          omega
      | listening _ _ hrx | failed _ _ _ hrx | accepted _ _ hrx => cases hs.symm.trans hrx
  | rxWait s hs htx hle hin hgap hdue =>
      have hafter := hf.after
      have hfirst := hf.first
      have hsecond := hf.second
      have hsoon := hf.soon
      have hc := poll_rx (c := c) b hs
      generalize ModbusExecutor.poll c b e = r at hc ⊢
      cases hc with
      | listening hnot =>
          have hearly : b.t₁ < s + c.responseTimeoutMs.toNat := by
            by_contra hlate
            rw [htx] at hnot
            have helapsed : elapsed (millis b.t₁) (millis s) c.responseTimeoutMs = true :=
              (elapsed_of_le (by omega)).mpr (by omega)
            rw [helapsed] at hnot
            cases hnot
          exact .rxWait s hs htx (by omega) hearly.le hgap hdue
      | failed frame at' fault => exact .ended (by simp) (by simp)
      | accepted reply at' _ => exact Due.accept hf hin hgap (by omega) hdue

/-- Calls of `loop` that follow each other in time, from `a` on. -/
inductive Paced (d : Nat) : LoopCall → List BusCall → LoopCall → Prop
  | nil (a : LoopCall) : Paced d a [] a
  | poll {a b z : LoopCall} {calls : List BusCall} :
      Follows d a b → Paced d b calls z → Paced d a (.poll b :: calls) z
  | baudRate {a z : LoopCall} {calls : List BusCall} (baud : UInt32) :
      Paced d a calls z → Paced d a (.baudRate baud :: calls) z

theorem Due.hint (baud : UInt32) (hdue : Due c d a D e) :
    Due c d a D { e with baudRateHint := baud } := by
  cases hdue with
  | ended hgap hrx => exact .ended hgap hrx
  | gap g hs hg hnear hle => exact .gap g hs hg hnear hle
  | rxWait s hs htx hle hin hgap hdue => exact .rxWait s hs htx hle hin hgap hdue

theorem Due.run {calls : List BusCall} {z : LoopCall} (hp : Paced d a calls z)
    (hd : c.responseTimeoutMs.toNat + d < 2 ^ 31) (hdue : Due c d a D e) :
    Due c d z D (after (serve c) calls e) := by
  induction hp generalizing e with
  | nil a => exact hdue
  | poll hf _ ih => exact ih (hdue.poll hf hd)
  | baudRate baud _ ih => exact ih (hdue.hint _)

/-- The executor holds a batch, at work or finished. -/
def HasBatch (e : ModbusExecutor) : Prop := e.state = .gap ∨ e.state = .rxWait ∨ e.state = .done

theorem start_hasBatch (t : Nat) (h : GbbHeader) (e : ModbusExecutor) :
    HasBatch (start t h e).1 := by
  rcases start_state t h e with hs | hs
  · exact .inl hs
  · exact .inr (.inr hs)

theorem HasBatch.poll (hi : HasBatch e) (b : LoopCall) : HasBatch (poll c b e).1 := by
  have hc := loop_case c b.rx b.t₁ b.t₂ b.t₃ e
  rw [ModbusExecutor.poll]
  generalize loop c b.rx b.t₁ b.t₂ b.t₃ e = r at hc ⊢
  cases hc with
  | rest _ _ => exact hi
  | sent _ _ => exact .inr (.inl rfl)
  | listening frame at' hs => exact .inr (.inl hs)
  | failed frame at' fault hs => exact .inr (.inr rfl)
  | accepted frame at' hs =>
      rcases acceptReply_state b.t₂ b.t₃ (e.withRx frame at') with h | h
      · exact .inl h
      · exact .inr (.inr h)

theorem run_hasBatch {calls : List BusCall} (hi : HasBatch e) :
    HasBatch (after (serve c) calls e) := by
  induction calls generalizing e with
  | nil => exact hi
  | cons call calls ih =>
      refine ih ?_
      cases call with
      | poll call => exact hi.poll call
      | baudRate baud => exact hi

/-- A batch whose executor is called every `d` milliseconds is finished once
the time for its lines has gone by, whatever the UART holds and wherever the
clock wraps. -/
theorem batch_completes (hg : e.gapUntil = millis g) (hahead : g ≤ t + longestGap c)
    (hrecent : t + d < g + 2 ^ 31) (hd : c.responseTimeoutMs.toNat + d < 2 ^ 31)
    {calls : List BusCall} {z : LoopCall} (hp : Paced d ⟨[], t, t, t⟩ calls z)
    (hlong : t + payloads h.lines * lineTime c d < z.t₁) :
    (after (serve c) calls (start t h e).1).state = .done := by
  have hstart : Due c d ⟨[], t, t, t⟩ (t + payloads h.lines * lineTime c d) (start t h e).1 :=
    start_due hg hahead hrecent (Nat.le_refl t)
  obtain ⟨hgap, hrx⟩ := (hstart.run hp hd).over_of_lt hlong
  have hheld : HasBatch (after (serve c) calls (start t h e).1) :=
    run_hasBatch (start_hasBatch t h e)
  rcases hheld with hs | hs | hs
  · exact absurd hs hgap
  · exact absurd hs hrx
  · exact hs

/-- Two registers are read, the second inverter is silent, and the loop comes
round every three seconds: no batch of two lines takes longer than this. -/
def unanswered : List BusCall :=
  [.poll ⟨[], 3000, 3000, 3000⟩,
    .poll ⟨[0x01, 0x03, 0x02, 0x00, 0x05, 0x78, 0x47], 6000, 6000, 6000⟩,
    .poll ⟨[], 9000, 9000, 9000⟩, .baudRate 19200, .poll ⟨[], 12000, 12000, 12000⟩,
    .poll ⟨[], 15000, 15000, 15000⟩, .poll ⟨[], 18000, 18000, 18000⟩,
    .poll ⟨[], 21000, 21000, 21000⟩]

def twoReads : GbbHeader where
  lines :=
    [{ hasModbus := true, modbus := text "01030204000345B2" },
      { hasModbus := true, modbus := text "0203020400034581" }]

theorem batch_completes_unanswered :
    (after (serve {}) unanswered (start 0 twoReads {}).1).state = .done := by
  have hpaced : Paced 3000 ⟨[], 0, 0, 0⟩ unanswered ⟨[], 21000, 21000, 21000⟩ := by
    refine .poll (by decide) (.poll (by decide) (.poll (by decide) (.baudRate _ ?_)))
    exact .poll (by decide) (.poll (by decide) (.poll (by decide) (.poll (by decide) (.nil _))))
  have hlong : 0 + payloads twoReads.lines * lineTime {} 3000 < 21000 := by decide +kernel
  exact batch_completes (g := 0) rfl (by decide) (by decide) (by decide) hpaced hlong

end ModbusExecutor
end Gbb
