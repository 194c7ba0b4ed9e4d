import GbbDongle.Model.Dongle
import GbbDongle.Proofs.Manager

/-!
# What a step of the device can be

`StepCase` reads a move off once and for all: which of the device's functions
ran, on what, and what it left of executor, manager, pending slot and flash.
Every proof about runs splits on it.
-/

namespace Gbb

open History Wrap EmergencyManager

variable {P : Platform} {c : Config}

/-! ## The loop is its stages -/

/-- A world elsewhere in time and in the loop. -/
def World.moved (n : Nat) (s : Stage) (w : World) : World := { w with now := n, stage := s }

section
variable (n : Nat) (s : Stage) (w : World)

@[simp] theorem moved_now : (w.moved n s).now = n := rfl

@[simp] theorem moved_moved (n' : Nat) (s' : Stage) :
    (w.moved n s).moved n' s' = w.moved n' s' := rfl

theorem publishResponse_moved (info : Bytes) (header : GbbHeader) :
    publishResponse P c info header (w.moved n s) =
      ((publishResponse P c info header w).1.moved n s, (publishResponse P c info header w).2) := by
  have hdongle : (w.moved n s).dongle = w.dongle := rfl
  simp only [publishResponse, hdongle]
  cases chooseResponse P c header info (takeLastLog header w.dongle.logBuffer).1 <;> rfl

theorem pollResult_moved (t : Nat) (info : Bytes) (o : NvsOutcome) :
    pollResult P c t info o (w.moved n s) =
      ((pollResult P c t info o w).1.moved n s, (pollResult P c t info o w).2) := by
  have hdongle : (w.moved n s).dongle = w.dongle := rfl
  simp only [pollResult, hdongle]
  by_cases hr : w.dongle.executor.hasResult = true
  · rw [if_pos hr, if_pos hr]
    by_cases he : w.dongle.executor.takeResult.1.emergency = true
    · rw [if_pos he, if_pos he]
      rfl
    · rw [if_neg he, if_neg he]
      exact publishResponse_moved n s { w with dongle := _ } info _
  · rw [if_neg hr, if_neg hr]

theorem dispatch_moved (t : Nat) :
    Gbb.dispatch t (w.moved n s) = ((Gbb.dispatch t w).1.moved n s, (Gbb.dispatch t w).2) := by
  have hdongle : (w.moved n s).dongle = w.dongle := rfl
  simp only [Gbb.dispatch, hdongle]
  split
  · rfl
  · split
    · rfl
    · split <;> rfl

theorem sendKeepalive_moved (t : Nat) (connected : Bool) :
    sendKeepalive t connected (w.moved n s) =
      ((sendKeepalive t connected w).1.moved n s, (sendKeepalive t connected w).2) := by
  have hdongle : (w.moved n s).dongle = w.dongle := rfl
  simp only [sendKeepalive, hdongle]
  split <;> rfl

theorem runExecutor_moved (rx : Bytes) (t₁ t₂ t₃ : Nat) :
    runExecutor c rx t₁ t₂ t₃ (w.moved n s) =
      ((runExecutor c rx t₁ t₂ t₃ w).1.moved n s, (runExecutor c rx t₁ t₂ t₃ w).2) := rfl

theorem runEmergency_moved (t₁ t₂ : Nat) (wall : ESPTime) :
    runEmergency c t₁ t₂ wall (w.moved n s) =
      ((runEmergency c t₁ t₂ wall w).1.moved n s, (runEmergency c t₁ t₂ wall w).2) := rfl

end

theorem perform_eq (a : Act) (w : World) :
    a.perform P c w =
      ((a.run P c w).1.moved (w.now + a.wait) (a.next w.stage), (a.run P c w).2) := rfl

theorem performAll_cons {a : Act} {rest : List Act} {w : World} (h : a.fits w.stage = true)
    (hrest : Runs P c (a.perform P c w).1 (performAll P c rest (a.perform P c w).1).1
      (performAll P c rest (a.perform P c w).1).2) :
    Runs P c w (performAll P c (a :: rest) w).1 (performAll P c (a :: rest) w).2 := by
  have hone : Runs P c w ([] ++ [⟨w, a, (a.perform P c w).2, (a.perform P c w).1⟩])
      (a.perform P c w).1 := Run.snoc (m := ⟨w, a, _, _⟩) .nil ⟨h, rfl⟩
  exact hone.append hrest

/-- The acts of one loop call, performed from outside the loop, are the call. -/
theorem loop_is_its_stages (i : LoopInput) (w : World) (hw : w.stage = .outside) :
    (performAll P c i.acts w).2 = (loop P c i w).1 ∧
      ((performAll P c i.acts w).1.flatMap Move.evs) = (loop P c i w).2 ∧
      Runs P c w (performAll P c i.acts w).1 (performAll P c i.acts w).2 := by
  refine ⟨?_, ?_, ?_⟩
  · simp only [LoopInput.acts, performAll, perform_eq, Act.run, Act.wait, Act.next, loop,
      pollResult_moved, dispatch_moved, runExecutor_moved, sendKeepalive_moved,
      runEmergency_moved, moved_now, moved_moved, Nat.add_assoc, Nat.add_zero]
    rfl
  · simp only [LoopInput.acts, performAll, perform_eq, Act.run, Act.wait, Act.next, loop,
      pollResult_moved, dispatch_moved, runExecutor_moved, sendKeepalive_moved,
      runEmergency_moved, moved_now, moved_moved, Nat.add_assoc, Nat.add_zero,
      List.flatMap_cons, List.flatMap_nil, List.append_nil, List.append_assoc]
  · have hin : (Act.enter i.networkUp).fits w.stage = true := by rw [hw]; rfl
    exact performAll_cons hin <| performAll_cons rfl <| performAll_cons rfl <|
      performAll_cons rfl <| performAll_cons rfl <| performAll_cons rfl .nil

/-! ## Reading a step -/

/-- What no step but a message, the switch and a result touches. -/
structure SameFlash (w w' : World) : Prop where
  flash : w'.flash = w.flash
  persistSwitch : w'.persistSwitch = w.persistSwitch

/-- The header that a move brings, that of a message which is accepted. -/
def arrived (P : Platform) (m : Moment) : Option GbbHeader :=
  match m.act with
  | .message payload _ _ => acceptedHeader P payload
  | _ => none

inductive StepCase (P : Platform) (c : Config) (m : Moment) : Prop
  /-- Nothing the requirements are about; a poll without a result among it. -/
  | quiet (b : UInt32)
      (executor : m.post.executor = { m.pre.executor with baudRateHint := b })
      (manager : m.post.manager = m.pre.manager)
      (pending : m.post.pending = m.pre.pending)
      (flash : SameFlash m.pre m.post)
      (evs : ∀ ev ∈ m.evs, ev = .mqttEnabled ∨ ev = .keepalive)
      (stage : (m.pre.stage ≠ .dispatch ∧ m.post.stage ≠ .dispatch) ∨
        m.post.stage = m.pre.stage ∨
        (m.pre.stage = .poll ∧ m.post.stage = .dispatch ∧ m.pre.executor.hasResult = false) ∨
        (m.pre.stage = .dispatch ∧ m.post.stage = .execute ∧
          (m.pre.executor.busy = true ∨ m.pre.manager.state ≠ .queued)))
      (unheard : arrived P m = none)
  | message (payload : Bytes) (wall : ESPTime) (o : NvsOutcome) (header : GbbHeader)
      (act : m.act = .message payload wall o)
      (parsed : acceptedHeader P payload = some header)
      (executor : m.post.executor = m.pre.executor)
      (manager : m.post.manager =
        (m.pre.manager.handleFields P c.emergency wall o header m.pre.flash).1)
      (pending : m.post.pending = some header)
      (flash : m.post.flash =
        (m.pre.manager.handleFields P c.emergency wall o header m.pre.flash).2.1)
      (persistSwitch : m.post.persistSwitch = m.pre.persistSwitch)
      (evs : m.evs =
        (m.pre.manager.handleFields P c.emergency wall o header m.pre.flash).2.2 ++
          [.accepted header])
      (stage : m.pre.stage = .outside ∧ m.post.stage = .outside)
  | toggled (on : Bool) (o : NvsOutcome)
      (act : m.act = .persistSwitch on o)
      (executor : m.post.executor = m.pre.executor)
      (manager : m.post.manager = { m.pre.manager with
        store := (m.pre.manager.store.setPersistEnabled P o on m.pre.flash).1 })
      (pending : m.post.pending = m.pre.pending)
      (flash : m.post.flash = (m.pre.manager.store.setPersistEnabled P o on m.pre.flash).2.1)
      (persistSwitch : m.pre.persistSwitch ≠ none ∧ m.post.persistSwitch = some on)
      (evs : m.evs = (m.pre.manager.store.setPersistEnabled P o on m.pre.flash).2.2)
      (stage : m.pre.stage = .outside ∧ m.post.stage = .outside)
  | handled (t : Nat) (info : Bytes) (wait : Nat) (o : NvsOutcome)
      (act : m.act = .poll wait info o)
      (result : m.pre.executor.state = .done)
      (emergency : m.pre.executor.header.emergency = true)
      (executor : m.post.executor = m.pre.executor.takeResult.2)
      (manager : m.post.manager = (m.pre.manager.handleResult P c.emergency t o
        m.pre.executor.header m.pre.flash).1)
      (pending : m.post.pending = m.pre.pending)
      (flash : m.post.flash = (m.pre.manager.handleResult P c.emergency t o
        m.pre.executor.header m.pre.flash).2.1)
      (persistSwitch : m.post.persistSwitch = m.pre.persistSwitch)
      (evs : m.evs = (m.pre.manager.handleResult P c.emergency t o
        m.pre.executor.header m.pre.flash).2.2)
      (stage : m.pre.stage = .poll ∧ m.post.stage = .dispatch)
      (time : m.pre.now ≤ t ∧ t ≤ m.post.now)
  | finished (info : Bytes) (wait : Nat) (o : NvsOutcome)
      (act : m.act = .poll wait info o)
      (result : m.pre.executor.state = .done)
      (emergency : m.pre.executor.header.emergency = false)
      (executor : m.post.executor = m.pre.executor.takeResult.2)
      (manager : m.post.manager = m.pre.manager)
      (pending : m.post.pending = m.pre.pending)
      (flash : SameFlash m.pre m.post)
      (evs : m.evs = .finished m.pre.executor.header ::
        ((chooseResponse P c m.pre.executor.header info
          (takeLastLog m.pre.executor.header m.pre.dongle.logBuffer).1).map
            Event.published).toList)
      (stage : m.pre.stage = .poll ∧ m.post.stage = .dispatch)
  | handed (t : Nat) (key : Bytes) (lines : List GbbLine)
      (free : m.pre.executor.busy = false)
      (queued : m.pre.manager.state = .queued)
      (next : m.pre.manager.nextEntry = some (key, lines))
      (executor : m.post.executor =
        (m.pre.executor.start t (runHeader key lines)).1)
      (manager : m.post.manager = { m.pre.manager with
        walkFromStart := false
        currentKey := key
        currentRevision := m.pre.manager.store.revision key
        runs := m.pre.manager.runs + 1
        state := .executing })
      (pending : m.post.pending = m.pre.pending)
      (flash : SameFlash m.pre m.post)
      (evs : m.evs = .handed m.pre.manager.walkFromStart key lines ::
        (m.pre.executor.start t (runHeader key lines)).2)
      (stage : m.pre.stage = .dispatch ∧ m.post.stage = .execute)
      (time : m.pre.now ≤ t ∧ t ≤ m.post.now)
      (unheard : arrived P m = none)
  | strayed (free : m.pre.executor.busy = false)
      (queued : m.pre.manager.state = .queued)
      (next : m.pre.manager.nextEntry = none)
      (executor : m.post.executor = m.pre.executor)
      (manager : m.post.manager = { m.pre.manager with
        cloudBack := false
        state := if m.pre.manager.store.sets.isEmpty then .empty else .armed })
      (pending : m.post.pending = m.pre.pending)
      (flash : SameFlash m.pre m.post)
      (evs : m.evs = [])
      (stage : m.pre.stage = .dispatch ∧ m.post.stage = .execute)
      (unheard : arrived P m = none)
  | started (t : Nat) (header : GbbHeader)
      (free : m.pre.executor.busy = false)
      (queued : m.pre.manager.state ≠ .queued)
      (waiting : m.pre.pending = some header)
      (executor : m.post.executor = (m.pre.executor.start t header).1)
      (manager : m.post.manager = m.pre.manager)
      (pending : m.post.pending = none)
      (flash : SameFlash m.pre m.post)
      (evs : m.evs = .started header :: (m.pre.executor.start t header).2)
      (stage : m.pre.stage = .dispatch ∧ m.post.stage = .execute)
      (time : m.pre.now ≤ t ∧ t ≤ m.post.now)
      (unheard : arrived P m = none)
  | executed (rx : Bytes) (wait₁ wait₂ wait₃ t₁ t₂ t₃ : Nat)
      (act : m.act = .execute rx wait₁ wait₂ wait₃)
      (executor : m.post.executor = (m.pre.executor.loop c.bus rx t₁ t₂ t₃).1)
      (manager : m.post.manager = m.pre.manager)
      (pending : m.post.pending = m.pre.pending)
      (flash : SameFlash m.pre m.post)
      (evs : m.evs = (m.pre.executor.loop c.bus rx t₁ t₂ t₃).2)
      (stage : m.pre.stage = .execute ∧ m.post.stage = .keepalive)
      (time : t₁ = m.pre.now + wait₁ ∧ t₁ ≤ t₂ ∧ t₂ ≤ t₃ ∧ t₃ = m.post.now)
  | checked (wait₁ wait₂ t : Nat) (wall : ESPTime) (lastCheck : UInt32)
      (act : m.act = .emergency wait₁ wait₂ wall)
      (due : elapsed (millis (m.pre.now + wait₁)) m.pre.manager.lastCheck checkIntervalMs = true)
      (executor : m.post.executor = m.pre.executor)
      (check : CheckCase c.emergency t wall { m.pre.manager with lastCheck := lastCheck }
        (m.post.manager, m.evs))
      (pending : m.post.pending = m.pre.pending)
      (flash : SameFlash m.pre m.post)
      (stage : m.pre.stage = .emergency ∧ m.post.stage = .outside)
      (time : t = m.post.now)

/-- `apply_log_level_` is about the log ring alone. -/
theorem applyLogLevel_same (level : Bytes) (g : GbbDongle) :
    (applyLogLevel level g).executor = g.executor ∧
      (applyLogLevel level g).emergency = g.emergency ∧
      (applyLogLevel level g).requestsReceived = g.requestsReceived := by
  simp only [applyLogLevel]
  repeat' split
  all_goals exact ⟨rfl, rfl, rfl⟩

/-- Steps that stay clear of the dispatch stage. -/
theorem away {s : Stage} {w w' : World} {p : Prop} (hs : w.stage = s) (h : s ≠ .dispatch)
    (h' : w'.stage ≠ .dispatch) : (w.stage ≠ .dispatch ∧ w'.stage ≠ .dispatch) ∨ p :=
  .inl ⟨hs ▸ h, h'⟩

section
variable (w : World)

theorem message_case (payload : Bytes) (wall : ESPTime) (o : NvsOutcome)
    (hs : w.stage = .outside) :
    StepCase P c ⟨w, .message payload wall o,
      (Act.perform P c (.message payload wall o) w).2,
      (Act.perform P c (.message payload wall o) w).1⟩ := by
  simp only [Act.perform, Act.run, onCloudMessage]
  cases hp : acceptedHeader P payload with
  | none =>
      exact .quiet w.executor.baudRateHint rfl rfl rfl ⟨rfl, rfl⟩ (by simp)
        (away hs nofun nofun) hp
  | some header =>
      simp only [acceptHeader]
      by_cases hl : header.hasLogLevel = true
      · simp only [if_pos hl]
        obtain ⟨hex, hem, -⟩ := applyLogLevel_same header.logLevel
          { w.dongle with requestsReceived := w.dongle.requestsReceived + 1 }
        rw [hem]
        exact .message payload wall o header rfl hp hex rfl rfl rfl rfl rfl ⟨hs, rfl⟩
      · simp only [if_neg hl]
        exact .message payload wall o header rfl hp rfl rfl rfl rfl rfl rfl ⟨hs, rfl⟩

theorem poll_case (wait : Nat) (info : Bytes) (o : NvsOutcome) (hs : w.stage = .poll) :
    StepCase P c ⟨w, .poll wait info o, (Act.perform P c (.poll wait info o) w).2,
      (Act.perform P c (.poll wait info o) w).1⟩ := by
  simp only [Act.perform, Act.run, pollResult]
  by_cases hr : w.dongle.executor.hasResult = true
  · have hd : w.executor.state = .done := by simpa [ModbusExecutor.hasResult] using hr
    have hh : w.dongle.executor.takeResult.1 = w.executor.header := rfl
    rw [if_pos hr, hh]
    by_cases he : w.executor.header.emergency = true
    · rw [if_pos he]
      exact .handled (w.now + wait) info wait o rfl hd he rfl rfl rfl rfl rfl rfl ⟨hs, rfl⟩
        ⟨Nat.le_add_right _ _, Nat.le_refl _⟩
    · rw [if_neg he]
      rw [Bool.not_eq_true] at he
      simp only [publishResponse]
      cases hc : chooseResponse P c w.executor.header info
          (takeLastLog w.executor.header w.dongle.logBuffer).1 with
      | none =>
          exact .finished info wait o rfl hd he rfl rfl rfl ⟨rfl, rfl⟩ (by rw [hc]; rfl) ⟨hs, rfl⟩
      | some response =>
          exact .finished info wait o rfl hd he rfl rfl rfl ⟨rfl, rfl⟩ (by rw [hc]; rfl) ⟨hs, rfl⟩
  · rw [if_neg hr]
    rw [Bool.not_eq_true] at hr
    exact .quiet w.executor.baudRateHint rfl rfl rfl ⟨rfl, rfl⟩ (by simp)
      (.inr (.inr (.inl ⟨hs, rfl, hr⟩))) rfl

theorem dispatch_case (wait : Nat) (hs : w.stage = .dispatch) :
    StepCase P c ⟨w, .dispatch wait, (Act.perform P c (.dispatch wait) w).2,
      (Act.perform P c (.dispatch wait) w).1⟩ := by
  have htime : w.now ≤ w.now + wait := Nat.le_add_right _ _
  simp only [Act.perform, Act.run, dispatch]
  by_cases hb : w.dongle.executor.busy = true
  · simp only [if_pos hb]
    exact .quiet w.executor.baudRateHint rfl rfl rfl ⟨rfl, rfl⟩ (by simp)
      (.inr (.inr (.inr ⟨hs, rfl, .inl hb⟩))) rfl
  · simp only [if_neg hb]
    rw [Bool.not_eq_true] at hb
    by_cases hq : w.dongle.emergency.wantsBus = true
    · have hq' : w.manager.state = .queued := by simpa [wantsBus] using hq
      simp only [if_pos hq, startNextSet]
      cases hn : w.dongle.emergency.nextEntry with
      | none => exact .strayed hb hq' hn rfl rfl rfl ⟨rfl, rfl⟩ rfl ⟨hs, rfl⟩ rfl
      | some entry =>
          exact .handed (w.now + wait) entry.1 entry.2 hb hq' hn rfl rfl rfl ⟨rfl, rfl⟩ rfl
            ⟨hs, rfl⟩ ⟨htime, Nat.le_refl _⟩ rfl
    · have hq' : w.manager.state ≠ .queued := by simpa [wantsBus] using hq
      simp only [if_neg hq]
      cases hp : w.dongle.pendingRequest with
      | none =>
          exact .quiet w.executor.baudRateHint rfl rfl rfl ⟨rfl, rfl⟩ (by simp)
            (.inr (.inr (.inr ⟨hs, rfl, .inr hq'⟩))) rfl
      | some header =>
          exact .started (w.now + wait) header hb hq' hp rfl rfl rfl ⟨rfl, rfl⟩ rfl ⟨hs, rfl⟩
            ⟨htime, Nat.le_refl _⟩ rfl

theorem emergency_case (wait₁ wait₂ : Nat) (wall : ESPTime) (hs : w.stage = .emergency) :
    StepCase P c ⟨w, .emergency wait₁ wait₂ wall,
      (Act.perform P c (.emergency wait₁ wait₂ wall) w).2,
      (Act.perform P c (.emergency wait₁ wait₂ wall) w).1⟩ := by
  simp only [Act.perform, Act.run, runEmergency, EmergencyManager.loop]
  by_cases hd : elapsed (millis (w.now + wait₁)) w.dongle.emergency.lastCheck checkIntervalMs
  · simp only [if_pos hd]
    exact .checked wait₁ wait₂ (w.now + wait₁ + wait₂) wall (millis (w.now + wait₁)) rfl hd rfl
      (checkTrigger_case _ _ _ _) rfl ⟨rfl, rfl⟩ ⟨hs, rfl⟩ (Nat.add_assoc _ _ _)
  · simp only [if_neg hd]
    exact .quiet w.executor.baudRateHint rfl rfl rfl ⟨rfl, rfl⟩ (by simp) (away hs nofun nofun)
      rfl

end

theorem performed_case (a : Act) (w : World) (h : a.fits w.stage = true) :
    StepCase P c ⟨w, a, (a.perform P c w).2, (a.perform P c w).1⟩ := by
  cases a with
  | message payload wall o => exact message_case w payload wall o (by simpa [Act.fits] using h)
  | persistSwitch on o =>
      have hs : w.stage = .outside := by simpa [Act.fits] using h
      simp only [Act.perform, Act.run, togglePersist]
      cases hp : w.persistSwitch with
      | none =>
          exact .quiet w.executor.baudRateHint rfl rfl rfl ⟨rfl, rfl⟩ (by simp)
            (away hs nofun nofun) rfl
      | some _ =>
          exact .toggled on o rfl rfl rfl rfl rfl ⟨by simp [hp], rfl⟩ rfl ⟨hs, rfl⟩
  | baudRate baud =>
      have hs : w.stage = .outside := by simpa [Act.fits] using h
      exact .quiet (if baud = 0 then 9600 else baud) rfl rfl rfl ⟨rfl, rfl⟩ (fun _ h => nomatch h)
        (away hs nofun nofun) rfl
  | log level line =>
      exact .quiet w.executor.baudRateHint rfl rfl rfl ⟨rfl, rfl⟩ (fun _ h => nomatch h)
        (.inr (.inl rfl)) rfl
  | enter networkUp =>
      have hs : w.stage = .outside := by simpa [Act.fits] using h
      simp only [Act.perform, Act.run, enterLoop]
      split
      · exact .quiet w.executor.baudRateHint rfl rfl rfl ⟨rfl, rfl⟩ (by simp)
          (away hs nofun nofun) rfl
      · exact .quiet w.executor.baudRateHint rfl rfl rfl ⟨rfl, rfl⟩ (by simp)
          (away hs nofun nofun) rfl
  | poll wait info o => exact poll_case w wait info o (by simpa [Act.fits] using h)
  | dispatch wait => exact dispatch_case w wait (by simpa [Act.fits] using h)
  | execute rx wait₁ wait₂ wait₃ =>
      have hs : w.stage = .execute := by simpa [Act.fits] using h
      refine .executed rx wait₁ wait₂ wait₃ _ _ _ rfl rfl rfl rfl ⟨rfl, rfl⟩ rfl ⟨hs, rfl⟩
        ⟨rfl, Nat.le_add_right _ _, Nat.le_add_right _ _, ?_⟩
      show w.now + wait₁ + wait₂ + wait₃ = w.now + (wait₁ + wait₂ + wait₃)
      omega
  | keepalive wait connected =>
      have hs : w.stage = .keepalive := by simpa [Act.fits] using h
      simp only [Act.perform, Act.run, sendKeepalive]
      split
      · exact .quiet w.executor.baudRateHint rfl rfl rfl ⟨rfl, rfl⟩ (by simp)
          (away hs nofun nofun) rfl
      · exact .quiet w.executor.baudRateHint rfl rfl rfl ⟨rfl, rfl⟩ (by simp)
          (away hs nofun nofun) rfl
  | emergency wait₁ wait₂ wall =>
      exact emergency_case w wait₁ wait₂ wall (by simpa [Act.fits] using h)
  | boot b => cases h

theorem step_case {m : Moment} (h : Step P c m) : StepCase P c m := by
  obtain ⟨w, a, evs, w'⟩ := m
  obtain ⟨hfits, hpost⟩ := h
  have hp := performed_case (P := P) (c := c) a w hfits
  rw [show (a.perform P c w).1 = w' from (congrArg Prod.fst hpost).symm,
    show (a.perform P c w).2 = evs from (congrArg Prod.snd hpost).symm] at hp
  exact hp

end Gbb
