import GbbDongle.Proofs.Account
import GbbDongle.Proofs.LogRing

/-!
# What the cloud gets to see of the log

Log lines come in from anywhere, the gate that admits them is set by the cloud
and outlives reboots in its preference, and the ring is read when a response is
put together. `logOf` says what the log of a device is without any ring: the
plain text of the lines that the last valid `LogLevel` admits. `lastLog_newest`
says that responses carry it: each is given the newest bytes of what was logged
since the last one that asked, or since the boot.

The ring is moved by few of the device's acts, and `ringOps` names the calls
that each makes on it, so that what holds of any calls on a ring holds of it.
-/

namespace Gbb

open History LogRingBuffer

variable {P : Platform} {c : Config} {m : Moment} {es fs : List Moment} {w : World} {n : Nat}
  {g : UInt8} {old fresh out : Bytes} {b : BootInput}

/-! ## The log as such -/

/-- The gate that a `LogLevel` asks for, if it is one. -/
def gateNamed (level : Bytes) : Option UInt8 :=
  if equalsCaseInsensitive level (text "OnlyErrors") then some 2
  else if equalsCaseInsensitive level (text "Min") then some 5
  else if equalsCaseInsensitive level (text "Max") then some 7
  else none

/-- The gate that a message asks for. -/
def gateAsked (P : Platform) (m : Moment) : Option UInt8 :=
  match m.act with
  | .message payload _ _ => (acceptedHeader P payload).bind fun header =>
      if header.hasLogLevel then gateNamed header.logLevel else none
  | _ => none

/-- The last valid `LogLevel`, starting from `gate`. -/
def gateOf (P : Platform) (gate : UInt8) (es : List Moment) : UInt8 :=
  es.foldl (fun gate m => (gateAsked P m).getD gate) gate

/-- A message as plain text. The closing newline is missing when an escape
sequence runs to the end. -/
def plainLine (message : Bytes) : Bytes :=
  stripEscapes message ++ (if escapesClose message then [10] else [])

/-- What a log line adds to the log of a device with `n` bytes for it. -/
def loggedBy (n : Nat) (gate : UInt8) (m : Moment) : Bytes :=
  match m.act with
  | .log level line =>
      if gate < level || line.isEmpty then [] else plainLine (line.take (n / 4))
  | _ => []

def logOf (P : Platform) (n : Nat) : UInt8 → List Moment → Bytes
  | _, [] => []
  | gate, m :: es => loggedBy n gate m ++ logOf P n ((gateAsked P m).getD gate) es

theorem logOf_append :
    logOf P n g (es ++ fs) = logOf P n g es ++ logOf P n (gateOf P g es) fs := by
  induction es generalizing g with
  | nil => rfl
  | cons m es ih =>
      rw [List.cons_append, logOf, logOf, ih, List.append_assoc]
      rfl

theorem gateOf_snoc : gateOf P g (es ++ [m]) = (gateAsked P m).getD (gateOf P g es) := by
  rw [gateOf, gateOf, List.foldl_append]
  rfl

theorem logOf_snoc :
    logOf P n g (es ++ [m]) = logOf P n g es ++ loggedBy n (gateOf P g es) m := by
  rw [logOf_append, logOf, logOf, List.append_nil]

/-! ## The ring in the device -/

def Event.asksLog : Event → Bool
  | .finished header => header.hasSendLastLog && header.sendLastLog != 0
  | _ => false

/-- A response is put together that is to carry the log. -/
def asksLog (m : Moment) : Bool := m.evs.any Event.asksLog

theorem asksLog_iff : asksLog m = true ↔ ∃ header, Event.finished header ∈ m.evs ∧
    header.hasSendLastLog = true ∧ header.sendLastLog ≠ 0 := by
  rw [asksLog, List.any_eq_true]
  constructor
  · rintro ⟨ev, hev, hasks⟩
    cases ev <;> simp only [Event.asksLog, Bool.false_eq_true] at hasks
    next header => exact ⟨header, hev, by simpa using hasks⟩
  · rintro ⟨header, hev, hasks⟩
    exact ⟨_, hev, by simpa [Event.asksLog] using hasks⟩

/-- The calls an act makes on the ring. -/
def ringOps (P : Platform) (m : Moment) : List LogOp :=
  match m.act with
  | .log level line => [.append level line]
  | .message .. => ((gateAsked P m).map LogOp.setLevelGate).toList
  | .poll .. => if asksLog m then [.read lastLogMaxBytes] else []
  | _ => []

theorem applyLogLevel_eq (level : Bytes) (g : GbbDongle) :
    applyLogLevel level g = match gateNamed level with
      | none => g
      | some gate =>
          if gate = g.logBuffer.levelGate then g
          else { g with
            logBuffer := { g.logBuffer with levelGate := gate }
            logLevelPref := some gate } := rfl

theorem applyLogLevel_ring (level : Bytes) (g : GbbDongle) :
    (applyLogLevel level g).logBuffer =
      LogOp.runAll ((gateNamed level).map LogOp.setLevelGate).toList g.logBuffer := by
  rw [applyLogLevel_eq]
  cases gateNamed level with
  | none => rfl
  | some gate =>
      dsimp only
      split
      next heq =>
        rw [heq]
        rfl
      next => rfl

/-- The gate is what a reboot would restore. -/
def GateSaved (g : GbbDongle) : Prop := g.logLevelPref.getD 5 = g.logBuffer.levelGate

/-- The preference is saved when the gate moves, and then only. -/
theorem applyLogLevel_saved (level : Bytes) {g : GbbDongle} (h : GateSaved g) :
    GateSaved (applyLogLevel level g) := by
  rw [applyLogLevel_eq]
  cases gateNamed level with
  | none => exact h
  | some gate =>
      dsimp only
      split
      · exact h
      · rfl

theorem levelGate_putAll {bytes : Bytes} {r : LogRingBuffer} :
    (r.putAll bytes).levelGate = r.levelGate := by
  induction bytes generalizing r with
  | nil => rfl
  | cons c bytes ih => exact ih

theorem levelGate_readIncremental {r : LogRingBuffer} (k : Nat) :
    (r.readIncremental k).2.levelGate = r.levelGate := by
  rw [readIncremental]
  split <;> rfl

theorem takeLastLog_ring (header : GbbHeader) (r : LogRingBuffer) :
    (takeLastLog header r).2 = LogOp.runAll
        (if (Event.finished header).asksLog then [.read lastLogMaxBytes] else []) r ∧
      (takeLastLog header r).2.levelGate = r.levelGate := by
  rw [takeLastLog, Event.asksLog]
  split
  · exact ⟨rfl, levelGate_readIncremental _⟩
  · exact ⟨rfl, rfl⟩

theorem publishResponse_ring (info : Bytes) (header : GbbHeader) (w : World) :
    (publishResponse P c info header w).1.dongle.logBuffer =
        (takeLastLog header w.dongle.logBuffer).2 ∧
      (publishResponse P c info header w).1.dongle.logLevelPref = w.dongle.logLevelPref ∧
      (publishResponse P c info header w).2.any Event.asksLog =
        (Event.finished header).asksLog := by
  simp only [publishResponse]
  cases chooseResponse P c header info (takeLastLog header w.dongle.logBuffer).1 with
  | none => exact ⟨rfl, rfl, Bool.or_false _⟩
  | some response => exact ⟨rfl, rfl, Bool.or_false _⟩

theorem pollResult_ring (t : Nat) (info : Bytes) (o : NvsOutcome) (w : World) :
    (pollResult P c t info o w).1.dongle.logBuffer = LogOp.runAll
        (if (pollResult P c t info o w).2.any Event.asksLog then [.read lastLogMaxBytes] else [])
        w.dongle.logBuffer ∧
      (GateSaved w.dongle → GateSaved (pollResult P c t info o w).1.dongle) := by
  rw [pollResult]
  split
  · dsimp only
    split
    · have hnone : (w.dongle.emergency.handleResult P c.emergency t o
          w.dongle.executor.takeResult.1 w.flash).2.2.any Event.asksLog = false := by
        rw [List.any_eq_false]
        intro ev hev
        have hkind := handleResult_kind hev
        cases ev <;> simp [Event.kind, Event.asksLog] at hkind ⊢
      rw [hnone]
      exact ⟨rfl, id⟩
    · obtain ⟨hring, hpref, hasks⟩ := publishResponse_ring (P := P) (c := c) info
        w.dongle.executor.takeResult.1
        { w with dongle := { w.dongle with executor := w.dongle.executor.takeResult.2 } }
      obtain ⟨hread, hgate⟩ := takeLastLog_ring w.dongle.executor.takeResult.1 w.dongle.logBuffer
      rw [hasks, hring]
      refine ⟨hread, fun h => ?_⟩
      rw [GateSaved, hpref, hring]
      exact h.trans hgate.symm
  · exact ⟨rfl, id⟩

/-- Nothing else in the device has to do with the ring. -/
theorem Step.ring (hm : Step P c m) :
    m.post.dongle.logBuffer = LogOp.runAll (ringOps P m) m.pre.dongle.logBuffer ∧
      (GateSaved m.pre.dongle → GateSaved m.post.dongle) := by
  have hpost : m.post.dongle = (m.act.run P c m.pre).1.dongle :=
    congrArg (fun r => r.1.dongle) hm.2
  have hevs : m.evs = (m.act.run P c m.pre).2 := congrArg Prod.snd hm.2
  rw [hpost, ringOps]
  cases hact : m.act with
  | log level line =>
      refine ⟨rfl, fun h => ?_⟩
      show m.pre.dongle.logLevelPref.getD 5 = (m.pre.dongle.logBuffer.append level line).levelGate
      rw [append_eq, levelGate_putAll]
      exact h
  | message payload wall o =>
      rw [gateAsked, hact]
      simp only [Act.run, onCloudMessage]
      cases acceptedHeader P payload with
      | none => exact ⟨rfl, id⟩
      | some header =>
          simp only [acceptHeader, Option.bind_some]
          split
          · exact ⟨applyLogLevel_ring header.logLevel _,
              fun h => applyLogLevel_saved header.logLevel h⟩
          · exact ⟨rfl, id⟩
  | poll wait info o =>
      rw [asksLog, hevs, hact]
      exact pollResult_ring _ info o m.pre
  | persistSwitch on o =>
      simp only [Act.run, togglePersist]
      cases m.pre.persistSwitch <;> exact ⟨rfl, id⟩
  | enter networkUp =>
      simp only [Act.run, enterLoop]
      split <;> exact ⟨rfl, id⟩
  | dispatch wait =>
      simp only [Act.run, Gbb.dispatch]
      split
      · exact ⟨rfl, id⟩
      · split
        · exact ⟨rfl, id⟩
        · split <;> exact ⟨rfl, id⟩
  | keepalive wait connected =>
      simp only [Act.run, sendKeepalive]
      split <;> exact ⟨rfl, id⟩
  | boot b => exact absurd (hact ▸ hm.1) (by simp [Act.fits])
  | baudRate | execute | emergency => exact ⟨rfl, id⟩

theorem Step.levelGate (hm : Step P c m) :
    m.post.dongle.logBuffer.levelGate = (gateAsked P m).getD m.pre.dongle.logBuffer.levelGate := by
  rw [hm.ring.1, ringOps, gateAsked]
  cases m.act with
  | log level line =>
      show (m.pre.dongle.logBuffer.append level line).levelGate = _
      rw [append_eq, levelGate_putAll]
      rfl
  | message payload wall o =>
      dsimp only
      cases (acceptedHeader P payload).bind fun header =>
        if header.hasLogLevel then gateNamed header.logLevel else none <;> rfl
  | poll wait info o =>
      dsimp only
      split
      · exact levelGate_readIncremental _
      · rfl
  | _ => rfl

/-- What an act writes into the ring is what it adds to the log. -/
theorem stream_ringOps (h : m.pre.dongle.logBuffer.Serves n old fresh out) :
    LogOp.stream (ringOps P m) m.pre.dongle.logBuffer =
      loggedBy n m.pre.dongle.logBuffer.levelGate m := by
  rw [ringOps, loggedBy]
  cases m.act with
  | log level line =>
      obtain ⟨cells, hb, hlen, -⟩ := h.cells
      have hcap : m.pre.dongle.logBuffer.capacity = n := by
        rw [capacity, hb, Option.getD_some, hlen]
      have hstream : LogOp.stream [.append level line] m.pre.dongle.logBuffer =
          m.pre.dongle.logBuffer.recorded level line := List.append_nil _
      rw [hstream, recorded, clipped, hb, hcap, recordedRest_eq.1]
      rfl
  | message payload wall o =>
      dsimp only
      cases gateAsked P m <;> rfl
  | poll wait info o =>
      dsimp only
      split <;> rfl
  | _ => rfl

theorem read_mem_ringOps {k : Nat} (h : LogOp.read k ∈ ringOps P m) : asksLog m = true := by
  rw [ringOps] at h
  split at h
  · simp at h
  · cases hg : gateAsked P m <;> simp [hg] at h
  · by_contra hno
    simp [hno] at h
  · cases h

/-- A step that does not read the ring adds to what is fresh. -/
theorem Step.serves (hm : Step P c m) (h : m.pre.dongle.logBuffer.Serves n old fresh out)
    (hno : asksLog m = false)
    (hroom : (old ++ fresh ++ loggedBy n m.pre.dongle.logBuffer.levelGate m).length < 2 ^ 64) :
    m.post.dongle.logBuffer.Serves n old
      (fresh ++ loggedBy n m.pre.dongle.logBuffer.levelGate m) out := by
  rw [← stream_ringOps (P := P) h] at hroom ⊢
  rw [hm.ring.1]
  refine LogOp.serves_runAll h ?_ hroom
  intro op hop k hread
  have hask := read_mem_ringOps (hread ▸ hop)
  rw [hno] at hask
  cases hask

/-- Results are polled. -/
theorem Step.polled (hm : Step P c m) {header : GbbHeader} (h : Event.finished header ∈ m.evs) :
    ∃ wait info o, m.act = .poll wait info o := by
  cases step_case hm with
  | handled t info wait o act => exact ⟨wait, info, o, act⟩
  | finished info wait o act => exact ⟨wait, info, o, act⟩
  | quiet b executor manager pending flash evs =>
      rcases evs _ h with h | h <;> cases h
  | message payload wall o header act parsed executor manager pending flash persist evs =>
      rw [evs] at h
      rcases List.mem_append.mp h with h | h
      · rcases handleFields_kind h with hk | hk <;> cases hk
      · simp at h
  | toggled on o act executor manager pending flash persist evs =>
      rw [evs] at h
      have hk := nvs_kind (EmergencyStore.setPersistEnabled_isNvs h)
      cases hk
  | handed t key lines free queued next executor manager pending flash evs =>
      rw [evs] at h
      rcases List.mem_cons.mp h with h | h
      · cases h
      · have hk := (start_kind h).1
        cases hk
  | strayed free queued next executor manager pending flash evs =>
      rw [evs] at h
      cases h
  | started t header' free queued waiting executor manager pending flash evs =>
      rw [evs] at h
      rcases List.mem_cons.mp h with h | h
      · cases h
      · have hk := (start_kind h).1
        cases hk
  | executed rx wait₁ wait₂ wait₃ t₁ t₂ t₃ act executor manager pending flash evs =>
      rw [evs] at h
      have hk := loop_kind h
      cases hk
  | checked wait₁ wait₂ t wall lastCheck act due executor check =>
      have hk := check_kind check h
      cases hk

/-- A step that reads the ring leaves nothing fresh. -/
theorem Step.serves_read (hm : Step P c m) (h : m.pre.dongle.logBuffer.Serves n old fresh out)
    (hask : asksLog m = true) :
    ∃ out', m.post.dongle.logBuffer.Serves n (old ++ fresh) [] out' ∧
      loggedBy n m.pre.dongle.logBuffer.levelGate m = [] := by
  obtain ⟨header, hev, -⟩ := asksLog_iff.mp hask
  obtain ⟨wait, info, o, hact⟩ := hm.polled hev
  have hops : ringOps P m = [.read lastLogMaxBytes] := by
    rw [ringOps, hact]
    exact if_pos hask
  rw [hm.ring.1, hops, loggedBy, hact]
  exact ⟨_, h.readIncremental lastLogMaxBytes, rfl⟩

/-! ## Lives -/

/-- A boot finds the log as it was set up before: with `n` bytes, and with the
gate that was saved. -/
def FindsLog (n : Nat) (m : Moment) : Prop :=
  ∀ b, m.act = .boot b → b.logBufferSize = some n ∧ b.logGate = m.pre.dongle.logLevelPref

/-- The gate is the last valid `LogLevel`, whatever reboots come in between. -/
theorem Lives.levelGate (h : Lives P c (setup P b).1 es w)
    (hfinds : ∀ m ∈ es, FindsLog n m) :
    w.dongle.logBuffer.levelGate = gateOf P (b.logGate.getD 5) es ∧ GateSaved w.dongle := by
  refine h.history (H := fun es w => (∀ m ∈ es, FindsLog n m) →
    w.dongle.logBuffer.levelGate = gateOf P (b.logGate.getD 5) es ∧ GateSaved w.dongle)
    (fun _ => ⟨rfl, rfl⟩) ?_ hfinds
  intro es m _ ih hm hfinds
  obtain ⟨hgate, hsaved⟩ := ih fun x hx => hfinds x (List.mem_append_left _ hx)
  rw [gateOf_snoc, ← hgate]
  rcases hm with hm | hm
  · exact ⟨hm.levelGate, hm.ring.2 hsaved⟩
  · obtain ⟨b', hact, -, -, hpost⟩ := hm
    have hpref := (hfinds m (by simp) b' hact).2
    have hworld : m.post = (setup P b').1 := by
      rw [hact] at hpost
      exact congrArg Prod.fst hpost
    rw [hworld, gateAsked, hact]
    refine ⟨?_, rfl⟩
    show b'.logGate.getD 5 = _
    rw [hpref]
    exact hsaved

theorem setup_serves (hn : 0 < n) (hsize : b.logBufferSize = some n) :
    (setup P b).1.dongle.logBuffer.Serves n [] [] [] := by
  have hready : (setup P b).1.dongle.logBuffer =
      { LogRingBuffer.init b.logBufferSize {} with levelGate := b.logGate.getD 5 } := rfl
  rw [hready, hsize]
  exact LogOp.ready_serves hn (b.logGate.getD 5)

theorem Reboot.serves (hn : 0 < n) (hm : Reboot P c m) (hfinds : FindsLog n m) :
    m.post.dongle.logBuffer.Serves n [] [] [] := by
  obtain ⟨b', hact, -, -, hpost⟩ := hm
  rw [hact] at hpost
  have hworld : m.post = (setup P b').1 := congrArg Prod.fst hpost
  rw [hworld]
  exact setup_serves hn (hfinds b' hact).1

/-- At any time the ring serves what was logged since the boot, a part of the
log of the whole life. -/
theorem Lives.serves (h : Lives P c (setup P b).1 es w) (hn : 0 < n)
    (hsize : b.logBufferSize = some n) (hfinds : ∀ m ∈ es, FindsLog n m)
    (hroom : (logOf P n (b.logGate.getD 5) es).length < 2 ^ 64) :
    ∃ old fresh out, w.dongle.logBuffer.Serves n old fresh out ∧
      (old ++ fresh).length ≤ (logOf P n (b.logGate.getD 5) es).length := by
  refine h.history (H := fun es w => (∀ m ∈ es, FindsLog n m) →
    (logOf P n (b.logGate.getD 5) es).length < 2 ^ 64 →
    ∃ old fresh out, w.dongle.logBuffer.Serves n old fresh out ∧
      (old ++ fresh).length ≤ (logOf P n (b.logGate.getD 5) es).length)
    (fun _ _ => ⟨[], [], [], setup_serves hn hsize, Nat.zero_le _⟩) ?_ hfinds hroom
  intro es m hrun ih hm hfinds hroom
  have hbefore : ∀ x ∈ es, FindsLog n x := fun x hx => hfinds x (List.mem_append_left _ hx)
  have hgate := (Lives.levelGate hrun hbefore).1
  rw [logOf_snoc, List.length_append, ← hgate] at hroom ⊢
  obtain ⟨old, fresh, out, hserves, hlen⟩ := ih hbefore (by omega)
  rcases hm with hm | hm
  · cases hask : asksLog m with
    | false =>
        have hall : (old ++ fresh ++ loggedBy n m.pre.dongle.logBuffer.levelGate m).length =
            (old ++ fresh).length + (loggedBy n m.pre.dongle.logBuffer.levelGate m).length :=
          List.length_append
        refine ⟨_, _, _, hm.serves hserves hask (by omega), ?_⟩
        rw [← List.append_assoc, hall]
        omega
    | true =>
        obtain ⟨out', hread, hnone⟩ := hm.serves_read hserves hask
        refine ⟨_, _, _, hread, ?_⟩
        rw [List.append_nil]
        omega
  · exact ⟨[], [], [], hm.serves hn (hfinds m (by simp)), Nat.zero_le _⟩

/-- Where the log that is new to the cloud begins: at a response that asked for
it, or at a boot. -/
def Renews (m : Moment) : Prop := asksLog m = true ∨ ∃ b, m.act = .boot b

theorem Step.not_boots (hm : Step P c m) (b : BootInput) : m.act ≠ .boot b := by
  intro hact
  have hfits := hm.1
  rw [hact] at hfits
  cases hfits

/-- There nothing is fresh. -/
theorem Lives.renewed (h : Lives P c (setup P b).1 es w) (hn : 0 < n)
    (hsize : b.logBufferSize = some n) (hfinds : ∀ m ∈ es, FindsLog n m)
    (hroom : (logOf P n (b.logGate.getD 5) es).length < 2 ^ 64)
    (hlast : ∀ m ∈ es.getLast?, Renews m) :
    ∃ old out, w.dongle.logBuffer.Serves n old [] out ∧
      old.length ≤ (logOf P n (b.logGate.getD 5) es).length := by
  rcases List.eq_nil_or_concat es with rfl | ⟨es, m, rfl⟩
  · generalize hl : ([] : List Moment) = l at h
    cases h with
    | nil => exact ⟨[], [], setup_serves hn hsize, Nat.zero_le _⟩
    | snoc => simp at hl
  · rw [List.concat_eq_append] at *
    obtain ⟨hrun, hm, hend⟩ := h.at
    generalize hl : ([] : List Moment) = l at hend
    cases hend with
    | snoc => simp at hl
    | nil =>
        have hfinds' : ∀ x ∈ es, FindsLog n x := fun x hx => hfinds x (List.mem_append_left _ hx)
        rw [logOf_snoc, List.length_append] at hroom ⊢
        obtain ⟨old, fresh, out, hserves, hlen⟩ := Lives.serves hrun hn hsize hfinds' (by omega)
        rcases hm with hm | hm
        · rcases hlast m (by simp) with hask | ⟨b', hact⟩
          · obtain ⟨out', hread, -⟩ := hm.serves_read hserves hask
            exact ⟨_, _, hread, by omega⟩
          · exact absurd hact (hm.not_boots b')
        · exact ⟨[], [], hm.serves hn (hfinds m (by simp)), Nat.zero_le _⟩

/-- From there on the fresh bytes are the log. -/
theorem Lives.serves_since (h₁ : Lives P c (setup P b).1 es w) {u : World}
    (h₂ : Run (fun m => Step P c m ∨ Reboot P c m) w fs u)
    (hfinds : ∀ m ∈ es ++ fs, FindsLog n m) (hsince : ∀ m ∈ fs, ¬ Renews m)
    (hserves : w.dongle.logBuffer.Serves n old [] out)
    (hroom : old.length + (logOf P n (gateOf P (b.logGate.getD 5) es) fs).length < 2 ^ 64) :
    u.dongle.logBuffer.Serves n old (logOf P n (gateOf P (b.logGate.getD 5) es) fs) out := by
  refine h₂.history (H := fun fs u => (∀ m ∈ es ++ fs, FindsLog n m) → (∀ m ∈ fs, ¬ Renews m) →
    old.length + (logOf P n (gateOf P (b.logGate.getD 5) es) fs).length < 2 ^ 64 →
    u.dongle.logBuffer.Serves n old (logOf P n (gateOf P (b.logGate.getD 5) es) fs) out)
    (fun _ _ _ => hserves) ?_ hfinds hsince hroom
  intro fs m hrun ih hm hfinds hsince hroom
  rw [← List.append_assoc] at hfinds
  have hbefore : ∀ x ∈ es ++ fs, FindsLog n x := fun x hx => hfinds x (List.mem_append_left _ hx)
  have hgate := (Lives.levelGate (h₁.append hrun) hbefore).1
  have hall : gateOf P (b.logGate.getD 5) (es ++ fs) =
      gateOf P (gateOf P (b.logGate.getD 5) es) fs := List.foldl_append
  rw [logOf_snoc, ← hall, ← hgate] at hroom ⊢
  rw [List.length_append] at hroom
  have hfresh := ih hbefore (fun x hx => hsince x (List.mem_append_left _ hx)) (by omega)
  have hno : ¬ Renews m := hsince m (by simp)
  rcases hm with hm | hm
  · refine hm.serves hfresh ?_ ?_
    · rw [← Bool.not_eq_true]
      exact fun hask => hno (.inl hask)
    · rw [List.length_append, List.length_append]
      omega
  · obtain ⟨b', hact, -⟩ := hm
    exact absurd (.inr ⟨b', hact⟩) hno

theorem chooseResponse_log (header : GbbHeader) (info log : Bytes) :
    chooseResponse P c header info (some log) =
      if (P.serialize (responseDoc header c.identity info (some log))).length <
          jsonBuildTruncatedSize then
        some (P.serialize (responseDoc header c.identity info (some log)))
      else if (P.serialize (responseDoc header c.identity info none)).length <
          jsonBuildTruncatedSize then
        some (P.serialize (responseDoc header c.identity info none))
      else none := by
  have hlong (log : Option Bytes) : jsonBuildTruncatedSize ≤
      (buildResponse P header c.identity info log).length ↔ jsonBuildTruncatedSize ≤
        (P.serialize (responseDoc header c.identity info log)).length := by
    rw [buildResponse, ← Nat.not_lt, P.buildJson_short, Nat.not_lt]
  have hfits (log : Option Bytes)
      (h : (P.serialize (responseDoc header c.identity info log)).length < jsonBuildTruncatedSize) :
      buildResponse P header c.identity info log =
        P.serialize (responseDoc header c.identity info log) := P.buildJson_complete h
  by_cases hfull : (P.serialize (responseDoc header c.identity info (some log))).length <
      jsonBuildTruncatedSize
  · simp only [chooseResponse, Nat.not_le_of_lt hfull, false_and, ↓reduceIte, hfull,
      hfits _ hfull]
  · simp only [chooseResponse, hlong, Nat.le_of_not_lt hfull, Option.isSome_some, and_self, hfull,
      ↓reduceIte]
    by_cases hbare : (P.serialize (responseDoc header c.identity info none)).length <
        jsonBuildTruncatedSize
    · simp only [hbare, Nat.not_le_of_lt hbare, ↓reduceIte, hfits _ hbare]
    · simp only [hbare, Nat.le_of_not_lt hbare, ↓reduceIte]

/-- A response that asks for the log carries the newest bytes of what was
logged since the last one that did, or since the boot: as many as the ring
holds and the response may carry. They are dropped only where the document
would be too long with them, and the whole response only where it would be
without them. -/
theorem lastLog_newest {before between after : List Moment} {header : GbbHeader}
    (h : Lives P c (setup P b).1 (before ++ between ++ m :: after) w)
    (hn : 0 < n) (hsize : b.logBufferSize = some n)
    (hfinds : ∀ x ∈ before ++ between ++ m :: after, FindsLog n x)
    (hstart : ∀ x ∈ before.getLast?, Renews x) (hsince : ∀ x ∈ between, ¬ Renews x)
    (hroom : (logOf P n (b.logGate.getD 5) (before ++ between)).length < 2 ^ 64)
    (hfinished : Event.finished header ∈ m.evs)
    (hask : header.hasSendLastLog = true ∧ header.sendLastLog ≠ 0) :
    let fresh := logOf P n (gateOf P (b.logGate.getD 5) before) between
    let lastLog := fresh.rtake (min lastLogMaxBytes (min n fresh.length))
    ∃ wait info o, m.act = .poll wait info o ∧
      let full := responseDoc header c.identity info (some lastLog)
      let bare := responseDoc header c.identity info none
      full.member "LastLog" = .str lastLog ∧
      m.evs = .finished header ::
        if (P.serialize full).length < jsonBuildTruncatedSize then [.published (P.serialize full)]
        else if (P.serialize bare).length < jsonBuildTruncatedSize then
          [.published (P.serialize bare)]
        else [] := by
  intro fresh lastLog
  obtain ⟨hrun, hm, -⟩ := h.at
  obtain ⟨u, hbefore, hbetween⟩ := hrun.split
  rw [logOf_append, List.length_append] at hroom
  obtain ⟨old, out, hold, hlen⟩ := Lives.renewed hbefore hn hsize
    (fun x hx => hfinds x (by simp [hx])) (by omega) hstart
  have hserves := Lives.serves_since hbefore hbetween
    (fun x hx => hfinds x (List.mem_append_left _ hx)) hsince hold (by omega)
  have hlog : (takeLastLog header m.pre.dongle.logBuffer).1 = some lastLog := by
    have hcond : (header.hasSendLastLog && header.sendLastLog != 0) = true := by
      simp [hask.1, hask.2]
    rw [takeLastLog, if_pos hcond]
    exact congrArg some (hserves.readIncremental_eq lastLogMaxBytes)
  obtain ⟨-, hcase, -⟩ := (Lives.cases h).at
  cases hcase with
  | booted b' post flash silent =>
      have hkind := silent _ hfinished
      cases hkind
  | step hstep hw =>
      cases (step_case hstep).source hw hfinished with
      | finished wait info o header' act own result emergency evs =>
          rw [← own, hlog, chooseResponse_log] at evs
          refine ⟨wait, info, o, act, ?_, evs.trans (congrArg _ ?_)⟩
          · simp [responseDoc]
          · split
            · rfl
            · split <;> rfl
      | bus hk => cases hk
      | flash hk => cases hk
      | checked _ _ _ _ _ hk => cases hk
      | link hk => cases hk

/-- A request that sets the gate and asks for the log. -/
def askDoc (orderId level : String) : Json :=
  .obj [("OrderId", .str (text orderId)), ("LogLevel", .str (text level)),
    ("SendLastLog", .int 1), ("Lines", .arr [])]

def askedDevice : Platform := bench [askDoc "7" "OnlyErrors", askDoc "8" "Max"]

/-- Two such requests, with a line of each kind logged in between. -/
def askedRun : List Moment × World :=
  performAll askedDevice {}
    ([.log 5 (text "up"), arrives (askDoc "7" "OnlyErrors") .unset] ++
      callAfter 10 [] .unset ++ callAfter 10 [] .unset ++
      [.log 5 (text "noise"), .log 2 (27 :: text "[31mhot"),
        arrives (askDoc "8" "Max") .unset] ++
      callAfter 10 [] .unset ++ callAfter 10 [] .unset)
    (setup askedDevice { unplugged with logBufferSize := some 64 }).1

/-- The second of them is answered at the end, by a document that is short enough. -/
theorem askedRun_answers (hlen : 24 < askedRun.1.length) :
    let header := askedRun.1[24].pre.executor.header
    Event.finished header ∈ askedRun.1[24].evs ∧ clientInfo askedRun.1[24] = [] ∧
      header.orderId = text "8" ∧ header.hasSendLastLog = true ∧ header.sendLastLog ≠ 0 ∧
      (askedDevice.serialize (responseDoc header ({} : Config).identity []
        (some (text "hot\n")))).length < jsonBuildTruncatedSize := by
  decide +kernel +revert

theorem lastLog_newest_asked :
    ∃ h : 24 < askedRun.1.length, ∃ header,
      header.orderId = text "8" ∧ askedRun.1[24].evs = [.finished header,
        .published (askedDevice.serialize
          (responseDoc header ({} : Config).identity [] (some (text "hot\n"))))] := by
  have hlen : 24 < askedRun.1.length := by decide +kernel
  have hruns : Runs askedDevice {} (setup askedDevice { unplugged with logBufferSize := some 64 }).1
      askedRun.1 askedRun.2 := performAll_runs rfl
  have hrun : Lives askedDevice {} (setup askedDevice { unplugged with logBufferSize := some 64 }).1
      askedRun.1 askedRun.2 := hruns.mono fun _ hm => .inl hm
  have hsplit : askedRun.1 = askedRun.1.take 10 ++ (askedRun.1.drop 10).take 14 ++
      askedRun.1[24] :: askedRun.1.drop 25 := by
    rw [← List.take_add]
    exact pick_one askedRun.1 24 hlen
  have hsteps : ∀ x ∈ askedRun.1, ∀ b, x.act ≠ .boot b :=
    fun x hx => (hruns.mem hx).not_boots
  have hasks : (∀ x ∈ (askedRun.1.take 10).getLast?, asksLog x = true) ∧
      ∀ x ∈ (askedRun.1.drop 10).take 14, asksLog x = false := by decide +kernel
  have hlog : (logOf askedDevice 64 (gateOf askedDevice 5 (askedRun.1.take 10))
      ((askedRun.1.drop 10).take 14)).rtake (min lastLogMaxBytes (min 64
        (logOf askedDevice 64 (gateOf askedDevice 5 (askedRun.1.take 10))
          ((askedRun.1.drop 10).take 14)).length)) = text "hot\n" := by decide +kernel
  obtain ⟨hfinished, hinfo, horderId, hflag, hask, hshort⟩ := askedRun_answers hlen
  rw [hsplit] at hrun hsteps
  obtain ⟨wait, info, o, hact, -, hevs⟩ := lastLog_newest hrun (by decide) rfl
    (fun x hx b' hact => absurd hact (hsteps x hx b'))
    (fun x hx => .inl (hasks.1 x hx))
    (fun x hx hrenews => by
      rcases hrenews with hask | ⟨b', hact⟩
      · rw [hasks.2 x hx] at hask
        cases hask
      · exact hsteps x (by simp [hx]) b' hact)
    (by decide +kernel) hfinished ⟨hflag, hask⟩
  rw [clientInfo, hact] at hinfo
  obtain rfl : info = [] := hinfo
  rw [← hlog] at hshort ⊢
  exact ⟨hlen, _, horderId, hevs.trans (congrArg _ (if_pos hshort))⟩

end Gbb
