import GbbDongle.Proofs.Sound

/-!
# Which step an event comes from

Every event has one emitter. The requirements name events, the invariants are
about states, and the inversions below lead from one to the other: a move that
emitted this event was that call, with these states before and after it.
-/

namespace Gbb

open History Wrap EmergencyManager

variable {P : Platform} {c : Config} {m : Moment} {ev : Event}

/-- The parts of the firmware that events come from. -/
inductive Event.Kind
  | bus
  | flash
  | wall
  | cycle
  | cloud
  | link
deriving DecidableEq

def Event.kind : Event → Event.Kind
  | .wrote .. | .answered .. | .failed .. | .gapUntil _ => .bus
  | .nvsSet _ | .nvsErase => .flash
  | .invSetup _ | .stamped _ | .queued .. => .wall
  | .handed .. | .resultHandled .. => .cycle
  | .accepted _ | .started _ | .finished _ | .published _ => .cloud
  | .mqttEnabled | .keepalive => .link

/-! ## What each component emits -/

theorem startNextLine_evs (t : Nat) (e : ModbusExecutor) :
    (e.startNextLine t).2 = [] ∨
      (e.startNextLine t).2 = [.failed t .invalidHex, .gapUntil (t + e.nextGapMs.toNat)] := by
  have h := ModbusExecutor.startNextLine_case t e
  generalize e.startNextLine t = r at h ⊢
  cases h with
  | finished => exact .inl rfl
  | badHex => exact .inr rfl
  | ready => exact .inl rfl

theorem startNextLine_kind {t : Nat} {e : ModbusExecutor} (h : ev ∈ (e.startNextLine t).2) :
    ev.kind = .bus ∧ (∀ t frame, ev ≠ .wrote t frame) ∧
      ∀ t line frame, ev ≠ .answered t line frame := by
  rcases startNextLine_evs t e with hs | hs
  · rw [hs] at h
    cases h
  · rw [hs] at h
    simp only [List.mem_cons, List.not_mem_nil, or_false] at h
    rcases h with rfl | rfl <;> exact ⟨rfl, nofun, nofun⟩

theorem start_kind {t : Nat} {header : GbbHeader} {e : ModbusExecutor}
    (h : ev ∈ (e.start t header).2) :
    ev.kind = .bus ∧ (∀ t frame, ev ≠ .wrote t frame) ∧
      ∀ t line frame, ev ≠ .answered t line frame :=
  startNextLine_kind h

theorem loop_kind {b : BusConfig} {rx : Bytes} {t₁ t₂ t₃ : Nat} {e : ModbusExecutor}
    (h : ev ∈ (e.loop b rx t₁ t₂ t₃).2) : ev.kind = .bus := by
  have hc := ModbusExecutor.loop_case b rx t₁ t₂ t₃ e
  generalize e.loop b rx t₁ t₂ t₃ = r at hc h
  cases hc with
  | rest => cases h
  | sent =>
      rw [ModbusExecutor.transmitCurrent, List.mem_singleton] at h
      exact h ▸ rfl
  | listening => cases h
  | failed =>
      simp only [ModbusExecutor.failLine_evs, List.mem_cons, List.not_mem_nil, or_false] at h
      rcases h with rfl | rfl <;> rfl
  | accepted =>
      rcases List.mem_cons.mp h with rfl | h
      · rfl
      · rcases List.mem_cons.mp h with rfl | h
        · rfl
        · exact (startNextLine_kind h).1

theorem nvs_kind (h : EmergencyStore.isNvs ev = true) : ev.kind = .flash := by
  cases ev <;> first | rfl | cases h

theorem handleFields_evs {e : EmergencyConfig} {wall : ESPTime} {o : NvsOutcome}
    {header : GbbHeader} {g : EmergencyManager} {flash : Flash}
    (h : ev ∈ (g.handleFields P e wall o header flash).2.2) :
    (header.invSetup = true ∧ ev = .invSetup (e.read wall)) ∨ ev.kind = .flash := by
  have hnoted : ∀ l : List Event, (∀ x ∈ l, x.kind = .flash) →
      ev ∈ (if header.invSetup then [Event.invSetup (e.read wall)] else []) ++ l →
      (header.invSetup = true ∧ ev = .invSetup (e.read wall)) ∨ ev.kind = .flash := by
    intro l hl hmem
    rcases List.mem_append.mp hmem with hmem | hmem
    · split at hmem
      · next hi => exact .inl ⟨hi, List.mem_singleton.mp hmem⟩
      · cases hmem
    · exact .inr (hl ev hmem)
  simp only [EmergencyManager.handleFields] at h
  split at h
  · refine hnoted _ (fun x hx => ?_) h
    simp only [EmergencyManager.storeLines] at hx
    generalize (if header.invSetup then g.noteInvSetup (e.read wall) else g) = g' at hx
    by_cases hch : (g'.store.setLines header.setKey header.linesOnNoInvSetup).1 = true
    · rw [if_pos hch] at hx
      exact nvs_kind (EmergencyStore.syncNvs_isNvs hx)
    · rw [if_neg hch] at hx
      cases hx
  · exact hnoted [] (by simp) (by simpa using h)

theorem handleFields_kind {e : EmergencyConfig} {wall : ESPTime} {o : NvsOutcome}
    {header : GbbHeader} {g : EmergencyManager} {flash : Flash}
    (h : ev ∈ (g.handleFields P e wall o header flash).2.2) :
    ev.kind = .wall ∨ ev.kind = .flash := by
  rcases handleFields_evs h with ⟨-, rfl⟩ | hk
  · exact .inl rfl
  · exact .inr hk

theorem confirm_kind {o : NvsOutcome} {header : GbbHeader} {g : EmergencyManager} {flash : Flash}
    (h : ev ∈ (g.confirm P o header flash).2.2) : ev.kind = .flash := by
  rw [EmergencyManager.confirm] at h
  split at h
  · split at h
    · exact nvs_kind (EmergencyStore.syncNvs_isNvs h)
    · cases h
  · cases h

theorem handleResult_evs {e : EmergencyConfig} {t : Nat} {o : NvsOutcome} {header : GbbHeader}
    {g : EmergencyManager} {flash : Flash}
    (h : ev ∈ (g.handleResult P e t o header flash).2.2) :
    ev = .resultHandled g.currentKey (g.handleResult P e t o header flash).1.state ∨
      ev.kind = .flash := by
  rcases List.mem_append.mp h with h | h
  · exact .inr (confirm_kind h)
  · exact .inl (List.mem_singleton.mp h)

theorem handleResult_kind {e : EmergencyConfig} {t : Nat} {o : NvsOutcome} {header : GbbHeader}
    {g : EmergencyManager} {flash : Flash}
    (h : ev ∈ (g.handleResult P e t o header flash).2.2) :
    ev.kind = .cycle ∨ ev.kind = .flash := by
  rcases handleResult_evs h with rfl | hk
  · exact .inl rfl
  · exact .inr hk

/-- What is emitted for the result of a request. -/
theorem finished_kind {header : GbbHeader} {response : Option Bytes}
    (h : ev ∈ Event.finished header :: (response.map Event.published).toList) :
    ev.kind = .cloud := by
  rcases List.mem_cons.mp h with rfl | h
  · rfl
  · rw [Option.mem_toList, Option.map_eq_some_iff] at h
    obtain ⟨payload, -, rfl⟩ := h
    rfl

theorem check_kind {e : EmergencyConfig} {t : Nat} {wall : ESPTime} {g : EmergencyManager}
    {r : EmergencyManager × List Event} (hc : CheckCase e t wall g r) (h : ev ∈ r.2) :
    ev.kind = .wall := by
  cases hc with
  | still => cases h
  | emptied => cases h
  | stamped => exact List.mem_singleton.mp h ▸ rfl
  | hourly => exact List.mem_singleton.mp h ▸ rfl
  | retry => exact List.mem_singleton.mp h ▸ rfl

/-! ## Inversions -/

/-- What a move was, read off one of its events. -/
inductive Source (P : Platform) (c : Config) (m : Moment) : Event → Prop
  | wrote (t t' : Nat) (frame : Bytes) (own : frame = m.pre.executor.txFrame)
      (state : m.pre.executor.state = .gap)
      (reached : reached (millis t) m.pre.executor.gapUntil = true)
      (executor : m.post.executor = (m.pre.executor.transmitCurrent c.bus t t').1)
      (evs : m.evs = [.wrote t m.pre.executor.txFrame])
      (time : m.pre.now ≤ t ∧ t ≤ m.post.now) :
      Source P c m (.wrote t frame)
  | bus {ev : Event} (kind : ev.kind = .bus) (silent : ∀ t frame, ev ≠ .wrote t frame)
      (valid : ∀ t line frame, ev = .answered t line frame → crcOk frame = true) :
      Source P c m ev
  | flash {ev : Event} (kind : ev.kind = .flash) : Source P c m ev
  | invSetup (payload : Bytes) (wall : ESPTime) (o : NvsOutcome) (header : GbbHeader)
      (act : m.act = .message payload wall o) (noted : header.invSetup = true)
      (manager : m.post.manager =
        (m.pre.manager.handleFields P c.emergency wall o header m.pre.flash).1) :
      Source P c m (.invSetup (c.emergency.read wall))
  | checked {ev : Event} (wait₁ wait₂ t : Nat) (wall : ESPTime) (lastCheck : UInt32)
      (kind : ev.kind = .wall) (act : m.act = .emergency wait₁ wait₂ wall)
      (check : CheckCase c.emergency t wall { m.pre.manager with lastCheck := lastCheck }
        (m.post.manager, m.evs)) :
      Source P c m ev
  | handed (t : Nat) (first : Bool) (key : Bytes) (lines : List GbbLine)
      (opens : first = m.pre.manager.walkFromStart)
      (queued : m.pre.manager.state = .queued)
      (next : m.pre.manager.nextEntry = some (key, lines))
      (executor : m.post.executor = (m.pre.executor.start t (runHeader key lines)).1)
      (manager : m.post.manager = { m.pre.manager with
        walkFromStart := false
        currentKey := key
        currentRevision := m.pre.manager.store.revision key
        runs := m.pre.manager.runs + 1
        state := .executing })
      (evs : m.evs = .handed m.pre.manager.walkFromStart key lines ::
        (m.pre.executor.start t (runHeader key lines)).2) :
      Source P c m (.handed first key lines)
  | resultHandled (t : Nat) (o : NvsOutcome) (key : Bytes) (next : EmergencyState)
      (current : key = m.pre.manager.currentKey) (left : next = m.post.manager.state)
      (result : m.pre.executor.state = .done)
      (emergency : m.pre.executor.header.emergency = true)
      (manager : m.post.manager = (m.pre.manager.handleResult P c.emergency t o
        m.pre.executor.header m.pre.flash).1) :
      Source P c m (.resultHandled key next)
  | accepted (payload : Bytes) (wall : ESPTime) (o : NvsOutcome) (header : GbbHeader)
      (act : m.act = .message payload wall o)
      (parsed : acceptedHeader P payload = some header) :
      Source P c m (.accepted header)
  | started (t : Nat) (header : GbbHeader) (free : m.pre.executor.state = .idle)
      (queued : m.pre.manager.state ≠ .queued) (waiting : m.pre.pending = some header)
      (executor : m.post.executor = (m.pre.executor.start t header).1)
      (pending : m.post.pending = none) :
      Source P c m (.started header)
  | finished (wait : Nat) (info : Bytes) (o : NvsOutcome) (header : GbbHeader)
      (act : m.act = .poll wait info o) (own : header = m.pre.executor.header)
      (result : m.pre.executor.state = .done)
      (emergency : m.pre.executor.header.emergency = false)
      (evs : m.evs = .finished m.pre.executor.header ::
        ((chooseResponse P c m.pre.executor.header info
          (takeLastLog m.pre.executor.header m.pre.dongle.logBuffer).1).map
            Event.published).toList) :
      Source P c m (.finished header)
  | published (info response : Bytes)
      (chosen : chooseResponse P c m.pre.executor.header info
        (takeLastLog m.pre.executor.header m.pre.dongle.logBuffer).1 = some response)
      (evs : m.evs = [.finished m.pre.executor.header, .published response]) :
      Source P c m (.published response)
  | link {ev : Event} (kind : ev.kind = .link) : Source P c m ev

theorem loop_source {rx : Bytes} {t₁ t₂ t₃ : Nat}
    (executor : m.post.executor = (m.pre.executor.loop c.bus rx t₁ t₂ t₃).1)
    (evs : m.evs = (m.pre.executor.loop c.bus rx t₁ t₂ t₃).2)
    (time : m.pre.now ≤ t₁ ∧ t₁ ≤ m.post.now) (h : ev ∈ m.evs) : Source P c m ev := by
  have hc := ModbusExecutor.loop_case c.bus rx t₁ t₂ t₃ m.pre.executor
  generalize hr : m.pre.executor.loop c.bus rx t₁ t₂ t₃ = r at hc executor evs
  rw [evs] at h
  cases hc with
  | rest => cases h
  | sent hs hreached =>
      obtain rfl := List.mem_singleton.mp h
      exact .wrote t₁ t₂ _ rfl hs hreached executor evs time
  | listening => cases h
  | failed =>
      simp only [ModbusExecutor.failLine_evs, List.mem_cons, List.not_mem_nil, or_false] at h
      rcases h with rfl | rfl <;> exact .bus rfl nofun nofun
  | accepted frame at' _ _ hcrc =>
      rcases List.mem_cons.mp h with rfl | h
      · refine .bus rfl nofun fun t line frame' heq => ?_
        obtain ⟨-, -, rfl⟩ := Event.answered.inj heq
        exact hcrc
      · rcases List.mem_cons.mp h with rfl | h
        · exact .bus rfl nofun nofun
        · obtain ⟨h1, h2, h3⟩ := startNextLine_kind h
          exact .bus h1 h2 fun t line frame heq => absurd heq (h3 t line frame)

theorem StepCase.source (hm : StepCase P c m) (hw : Sound m.pre) (h : ev ∈ m.evs) :
    Source P c m ev := by
  have hev := h
  cases hm with
  | quiet b executor manager pending flash evs stage =>
      rcases evs ev h with rfl | rfl <;> exact .link rfl
  | message payload wall o header act parsed executor manager pending flash persist evs stage =>
      rw [evs] at h
      rcases List.mem_append.mp h with h | h
      · rcases handleFields_evs h with ⟨hi, rfl⟩ | h
        · exact .invSetup payload wall o header act hi manager
        · exact .flash h
      · obtain rfl := List.mem_singleton.mp h
        exact .accepted payload wall o header act parsed
  | toggled on o act executor manager pending flash persist evs stage =>
      rw [evs] at h
      exact .flash (nvs_kind (EmergencyStore.setPersistEnabled_isNvs h))
  | handled t info wait o act result emergency executor manager pending flash persist evs stage
      time =>
      rw [evs] at h
      rcases handleResult_evs h with rfl | h
      · rw [← manager]
        exact .resultHandled t o _ _ rfl rfl result emergency manager
      · exact .flash h
  | finished info wait o act result emergency executor manager pending flash evs stage =>
      rw [evs] at h
      rcases List.mem_cons.mp h with rfl | h
      · exact .finished wait info o _ act rfl result emergency evs
      · cases hc : chooseResponse P c m.pre.executor.header info
            (takeLastLog m.pre.executor.header m.pre.dongle.logBuffer).1 with
        | none =>
            rw [hc] at h
            cases h
        | some response =>
            rw [hc] at h evs
            obtain rfl := List.mem_singleton.mp h
            exact .published info response hc evs
  | handed t key lines free queued next executor manager pending flash evs stage time =>
      rw [evs] at h
      rcases List.mem_cons.mp h with rfl | h
      · exact .handed t _ key lines rfl queued next executor manager evs
      · obtain ⟨h1, h2, h3⟩ := start_kind h
        exact .bus h1 h2 fun t line frame heq => absurd heq (h3 t line frame)
  | strayed free queued next executor manager pending flash evs stage =>
      rw [evs] at h
      cases h
  | started t header free queued waiting executor manager pending flash evs stage time =>
      rw [evs] at h
      rcases List.mem_cons.mp h with rfl | h
      · exact .started t header (hw.idle_of_free stage.1 free) queued waiting executor pending
      · obtain ⟨h1, h2, h3⟩ := start_kind h
        exact .bus h1 h2 fun t line frame heq => absurd heq (h3 t line frame)
  | executed rx wait₁ wait₂ wait₃ t₁ t₂ t₃ act executor manager pending flash evs stage time =>
      exact loop_source executor evs (by omega) hev
  | checked wait₁ wait₂ t wall lastCheck act due executor check pending flash stage time =>
      exact .checked wait₁ wait₂ t wall lastCheck (check_kind check h) act check

/-- A frame is written in GAP, once the deadline is reached. -/
theorem StepCase.of_wrote (hm : StepCase P c m) (hw : Sound m.pre) {t : Nat} {frame : Bytes}
    (h : Event.wrote t frame ∈ m.evs) :
    m.pre.executor.state = .gap ∧ frame = m.pre.executor.txFrame ∧
      reached (millis t) m.pre.executor.gapUntil = true ∧ (m.pre.now ≤ t ∧ t ≤ m.post.now) ∧
      ∃ t', m.post.executor = (m.pre.executor.transmitCurrent c.bus t t').1 := by
  cases hm.source hw h with
  | wrote t t' _ own state reached executor _ time =>
      exact ⟨state, own, reached, time, t', executor⟩
  | bus _ silent => exact absurd rfl (silent _ _)
  | flash hk => cases hk
  | checked _ _ _ _ _ hk => cases hk
  | link hk => cases hk

/-- A result is handled in EXECUTING, for the key that was executed. -/
theorem StepCase.of_resultHandled (hm : StepCase P c m) (hw : Sound m.pre) {key : Bytes}
    {next : EmergencyState} (h : Event.resultHandled key next ∈ m.evs) :
    m.pre.manager.state = .executing ∧ m.pre.executor.state = .done ∧
      key = m.pre.manager.currentKey ∧ next = m.post.manager.state ∧
      ∃ t o, m.post.manager = (m.pre.manager.handleResult P c.emergency t o
        m.pre.executor.header m.pre.flash).1 := by
  cases hm.source hw h with
  | resultHandled t o _ _ current left result emergency manager =>
      have hx : m.pre.manager.state = .executing :=
        hw.owner.mpr ⟨by rw [result]; decide, emergency⟩
      exact ⟨hx, result, current, left, t, o, manager⟩
  | bus hk => cases hk
  | flash hk => cases hk
  | checked _ _ _ _ _ hk => cases hk
  | link hk => cases hk

/-! ## The bus -/

/-- What a move is to the bus. -/
inductive BusCase (c : Config) (m : Moment) : Prop
  | rest (executor : (∃ b, m.post.executor = { m.pre.executor with baudRateHint := b }) ∨
        (m.pre.executor.state = .done ∧ m.post.executor = m.pre.executor.takeResult.2))
      (silent : ∀ ev ∈ m.evs, ev.kind ≠ .bus)
  | start (t : Nat) (header : GbbHeader) (first : Event) (notBus : first.kind ≠ .bus)
      (idle : m.pre.executor.state = .idle)
      (executor : m.post.executor = (m.pre.executor.start t header).1)
      (evs : m.evs = first :: (m.pre.executor.start t header).2)
      (time : m.pre.now ≤ t ∧ t ≤ m.post.now)
  | loop (rx : Bytes) (t₁ t₂ t₃ : Nat)
      (executor : m.post.executor = (m.pre.executor.loop c.bus rx t₁ t₂ t₃).1)
      (evs : m.evs = (m.pre.executor.loop c.bus rx t₁ t₂ t₃).2)
      (time : m.pre.now ≤ t₁ ∧ t₁ ≤ t₂ ∧ t₂ ≤ t₃ ∧ t₃ = m.post.now)

theorem StepCase.bus (hm : StepCase P c m) (hw : Sound m.pre) : BusCase c m := by
  cases hm with
  | quiet b executor manager pending flash evs stage =>
      refine .rest (.inl ⟨b, executor⟩) fun ev hev => ?_
      rcases evs ev hev with rfl | rfl <;> decide
  | message payload wall o header act parsed executor manager pending flash persist evs stage =>
      refine .rest (.inl ⟨m.pre.executor.baudRateHint, executor⟩) fun ev hev => ?_
      rw [evs] at hev
      rcases List.mem_append.mp hev with hev | hev
      · rcases handleFields_kind hev with h | h
        all_goals
          rw [h]
          decide
      · rw [List.mem_singleton.mp hev]
        nofun
  | toggled on o act executor manager pending flash persist evs stage =>
      refine .rest (.inl ⟨m.pre.executor.baudRateHint, executor⟩) fun ev hev => ?_
      rw [evs] at hev
      rw [nvs_kind (EmergencyStore.setPersistEnabled_isNvs hev)]
      decide
  | handled t info wait o act result emergency executor manager pending flash persist evs stage
      time =>
      refine .rest (.inr ⟨result, executor⟩) fun ev hev => ?_
      rw [evs] at hev
      rcases handleResult_kind hev with h | h
      all_goals
        rw [h]
        decide
  | finished info wait o act result emergency executor manager pending flash evs stage =>
      refine .rest (.inr ⟨result, executor⟩) fun ev hev => ?_
      rw [finished_kind (evs ▸ hev)]
      decide
  | handed t key lines free queued next executor manager pending flash evs stage time =>
      refine .start t _ _ ?_ (hw.idle_of_free stage.1 free) executor evs time
      nofun
  | strayed free queued next =>
      obtain ⟨entry, he⟩ := hw.nextEntry queued
      rw [next] at he
      cases he
  | started t header free queued waiting executor manager pending flash evs stage time =>
      refine .start t _ _ ?_ (hw.idle_of_free stage.1 free) executor evs time
      nofun
  | executed rx wait₁ wait₂ wait₃ t₁ t₂ t₃ act executor manager pending flash evs stage time =>
      exact .loop rx t₁ t₂ t₃ executor evs (by omega)
  | checked wait₁ wait₂ t wall lastCheck act due executor check pending flash stage time =>
      refine .rest (.inl ⟨m.pre.executor.baudRateHint, executor⟩) fun ev hev => ?_
      rw [check_kind check hev]
      decide

end Gbb
