import GbbDongle.Proofs.BatchResult
import GbbDongle.Proofs.Hex
import GbbDongle.Proofs.Origin
import GbbDongle.Proofs.Requests

/-!
# What a response says happened

The account of a batch, `Progress`, is about an executor that is started and
then called. In the device the calls come between other things, and a power cut
may come between any two. `Runs.account` finds the batch of the executor in the
history: the move that began it, and since then exactly the frames and replies
that the account speaks of. So a published response can be read as a record. It
gives the outcome of a request that was accepted, line by line, and the frames
and replies it rests on are all that went over the bus since that request was
started.
-/

namespace Gbb

open History EmergencyManager ModbusExecutor

variable {P : Platform} {c : Config} {m : Moment} {es : List Moment} {w : World}
  {header : GbbHeader} {e : ModbusExecutor}

/-! ## Lives -/

theorem Reboot.boots (h : Reboot P c m) :
    ∃ b, m.post = (setup P b).1 ∧ m.evs = (setup P b).2 ∧ b.flash = m.pre.flash := by
  obtain ⟨b, hact, hflash, -, hpost⟩ := h
  rw [hact] at hpost
  exact ⟨b, congrArg Prod.fst hpost, congrArg Prod.snd hpost, hflash⟩

/-- Boot has to do with nothing but flash. -/
theorem setup_kind {b : BootInput} {ev : Event} (h : ev ∈ (setup P b).2) : ev.kind = .flash := by
  have hevs : ev ∈ (({} : EmergencyManager).setup P b.nvsSync b.nvsLoad b.persistSwitch
      b.flash).2.2 := h
  cases hp : b.persistSwitch with
  | none =>
      rw [hp] at hevs
      cases hevs
  | some on =>
      cases on with
      | false =>
          rw [hp] at hevs
          cases hevs
      | true =>
          rw [hp, EmergencyManager.setup, setPersistEnabled_blank] at hevs
          have hc := EmergencyStore.loadFromNvs_case P b.nvsLoad { persistEnabled := true } b.flash
          dsimp only at hevs
          generalize EmergencyStore.loadFromNvs P b.nvsLoad { persistEnabled := true } b.flash = r
            at hc hevs
          cases hc with
          | nothing => cases hevs
          | dropped =>
              rw [List.nil_append, List.mem_singleton] at hevs
              rw [hevs]
              rfl
          | restored => cases hevs

/-- What boot establishes and every step keeps holds through reboots. -/
theorem Lives.sound {b : BootInput} (h : Lives P c (setup P b).1 es w) : Sound w := by
  refine h.invariant (Sound.setup P b) ?_
  intro m hm hw
  rcases hm with hm | hm
  · exact hw.step (step_case hm)
  · obtain ⟨b', hpost, -, -⟩ := hm.boots
    rw [hpost]
    exact Sound.setup P b'

/-- What a move of a life is: a step of a sound device, or a boot. -/
inductive LifeCase (P : Platform) (c : Config) (m : Moment) : Prop
  | step (step : Step P c m) (sound : Sound m.pre)
  | booted (b : BootInput) (post : m.post = (setup P b).1) (flash : b.flash = m.pre.flash)
      (silent : ∀ ev ∈ m.evs, ev.kind = .flash)

theorem Lives.cases {b : BootInput} (h : Lives P c (setup P b).1 es w) :
    Run (LifeCase P c) (setup P b).1 es w := by
  refine h.history (H := fun es w => Run (LifeCase P c) (setup P b).1 es w) .nil ?_
  intro es m hrun ih hm
  refine .snoc ih ?_
  rcases hm with hm | hm
  · exact .step hm (Lives.sound hrun)
  · obtain ⟨b', hpost, hevs, hflash⟩ := hm.boots
    exact .booted b' hpost hflash fun ev hev => setup_kind (hevs ▸ hev)

/-! ## The pending request -/

/-- The request is that of a message in one of these moves. -/
def Accepts (P : Platform) (es : List Moment) (header : GbbHeader) : Prop :=
  ∃ a ∈ es, arrived P a = some header

theorem Accepts.mono {fs : List Moment} (h : Accepts P es header) :
    Accepts P (es ++ fs) header := by
  obtain ⟨a, ha, hacc⟩ := h
  exact ⟨a, List.mem_append_left _ ha, hacc⟩

theorem Lives.pending {b : BootInput} (h : Lives P c (setup P b).1 es w) :
    ∀ header, w.pending = some header → Accepts P es header := by
  refine (Lives.cases h).history
    (H := fun es w => ∀ header, w.pending = some header → Accepts P es header) ?_ ?_
  · intro header hp
    cases hp
  · intro es m _ ih hm header hp
    cases hm with
    | booted b' post =>
        rw [post] at hp
        cases hp
    | step hm hw =>
        cases (step_case hm).pending with
        | still ops pending =>
            rw [pending] at hp
            exact (ih header hp).mono
        | accepted header' ops pending =>
            have hop : Mailbox.Op.put header' ∈ m.evs.filterMap pendingOp := by
              rw [ops]
              exact List.mem_singleton.mpr rfl
            obtain ⟨ev, hev, hev'⟩ := List.mem_filterMap.mp hop
            rw [pending] at hp
            obtain rfl := Option.some.inj hp
            refine ⟨m, by simp, hm.arrived hw ?_⟩
            cases ev <;> cases hev'
            exact hev
        | started header' ops waiting pending =>
            rw [pending] at hp
            cases hp

/-! ## Lines that can be sent -/

namespace ModbusExecutor

/-- The line has not failed for its hex, nor can it. -/
def Sendable (l : GbbLine) : Prop :=
  l.error ≠ LineFault.invalidHex.message ∧
    (l.carries = true → ∃ frame, l.modbus = bytesToHex frame ∧ 4 ≤ frame.length)

theorem Sendable.clear {l : GbbLine} (h : Sendable l) : Sendable (clearModbus l) :=
  ⟨h.1, fun hc => by cases hc⟩

theorem sendable_failFrom {fault : LineFault} (hfault : fault ≠ .invalidHex) {n : Nat}
    {lines : List GbbLine} (h : ∀ l ∈ lines, Sendable l) :
    ∀ l ∈ failFrom fault n lines, Sendable l := by
  have hmessage : fault.message ≠ LineFault.invalidHex.message := by
    cases fault <;> first | decide | exact absurd rfl hfault
  induction lines generalizing n with
  | nil =>
      intro l hl
      cases n <;> cases hl
  | cons x rest ih =>
      rw [List.forall_mem_cons] at h
      cases n with
      | zero =>
          intro l hl
          rcases List.mem_cons.mp hl with rfl | hl
          · exact ⟨hmessage, fun hc => by cases hc⟩
          · obtain ⟨y, hy, rfl⟩ := List.mem_map.mp hl
            exact (h.2 y hy).clear
      | succ n => exact List.forall_mem_cons.mpr ⟨h.1, ih h.2⟩

theorem sendable_modify {reply : Bytes} (hlen : 4 ≤ reply.length) {n : Nat} {lines : List GbbLine}
    (h : ∀ l ∈ lines, Sendable l) :
    ∀ l ∈ lines.modify n fun l => { l with modbus := bytesToHex reply }, Sendable l := by
  induction lines generalizing n with
  | nil =>
      intro l hl
      cases n <;> cases hl
  | cons x rest ih =>
      rw [List.forall_mem_cons] at h
      cases n with
      | zero => exact List.forall_mem_cons.mpr ⟨⟨h.1.1, fun _ => ⟨reply, rfl, hlen⟩⟩, h.2⟩
      | succ n => exact List.forall_mem_cons.mpr ⟨h.1, ih h.2⟩

/-- A line that can be sent is not failed before it was. -/
theorem sendable_startNextLine (t : Nat) (h : ∀ l ∈ e.header.lines, Sendable l) :
    ∀ l ∈ (startNextLine t e).1.header.lines, Sendable l := by
  obtain ⟨skipped, rest, hdrop, hi, -, hrest⟩ :=
    skipLines_spec (e.header.lines.drop e.lineIndex) e.lineIndex
  have hget : e.header.lines[e.lineIndex + skipped.length]? = rest.head? := by
    rw [← List.getElem?_drop, hdrop, List.getElem?_append_right (Nat.le_refl _), Nat.sub_self,
      List.head?_eq_getElem?]
  simp only [startNextLine, hi, hget]
  cases rest with
  | nil => exact h
  | cons line rest =>
      have hmem : line ∈ e.header.lines := by
        refine List.mem_of_mem_drop (i := e.lineIndex) ?_
        rw [hdrop]
        simp
      obtain ⟨frame, hhex, hlen⟩ := (h line hmem).2 (hrest line rfl)
      have hok : ¬ ((hexToBytes line.modbus e.txFrame).1 = false ∨
          (hexToBytes line.modbus e.txFrame).2.length < 4) := by
        rw [hhex, hexToBytes_bytesToHex]
        simpa using hlen
      simp only [List.head?_cons, if_neg hok]
      exact h

theorem sendable_start (t : Nat) (h : ∀ l ∈ header.lines, Sendable l) :
    ∀ l ∈ (start t header e).1.header.lines, Sendable l :=
  sendable_startNextLine t (e := { e with header := header, lineIndex := 0, state := .gap }) h

theorem sendable_loop {rx : Bytes} {t₁ t₂ t₃ : Nat} (h : ∀ l ∈ e.header.lines, Sendable l) :
    ∀ l ∈ (loop c.bus rx t₁ t₂ t₃ e).1.header.lines, Sendable l := by
  have hl := loop_case c.bus rx t₁ t₂ t₃ e
  generalize loop c.bus rx t₁ t₂ t₃ e = r at hl ⊢
  cases hl with
  | rest | sent | listening => exact h
  | failed frame at' fault _ hfault => exact sendable_failFrom hfault h
  | accepted frame at' _ hlen => exact sendable_startNextLine t₃ (sendable_modify hlen h)

end ModbusExecutor

/-! ## The batch in hand -/

/-- The move begins a batch: a request, or a stored set. -/
def Begins (m : Moment) (header : GbbHeader) : Prop :=
  Event.started header ∈ m.evs ∨ ∃ key lines, Hands key lines m ∧ header = runHeader key lines

/-- The batch of `header` is in the executor: a move began it, none has begun
another since, there has been no reboot, and the account is of all there was on
the bus. -/
structure Account (P : Platform) (c : Config) (es : List Moment) (header : GbbHeader)
    (e : ModbusExecutor) : Prop where
  same : SameRequest header e.header
  sendable : (∀ l ∈ header.lines, Sendable l) → ∀ l ∈ e.header.lines, Sendable l
  begun : ∃ before s since errors, es = before ++ s :: since ∧ Begins s header ∧
    (∀ x ∈ since, Step P c x ∧ ¬ Starts x) ∧
    Progress header.lines errors (framesOf (since.flatMap Move.evs))
      (repliesOf (since.flatMap Move.evs)) e

/-- What is not of the bus adds nothing to an account. -/
theorem nothing_exchanged {evs : List Event} (h : ∀ ev ∈ evs, ev.kind ≠ .bus) :
    framesOf evs = [] ∧ repliesOf evs = [] := by
  constructor
  · rw [framesOf, List.filterMap_eq_nil_iff]
    intro ev hev
    have hk := h ev hev
    cases ev <;> first | rfl | exact absurd rfl hk
  · rw [repliesOf, List.filterMap_eq_nil_iff]
    intro ev hev
    have hk := h ev hev
    cases ev <;> first | rfl | exact absurd rfl hk

/-- `start` sends nothing yet. -/
theorem start_exchanges_nothing (t : Nat) (h : GbbHeader) (e : ModbusExecutor) :
    framesOf (start t h e).2 = [] ∧ repliesOf (start t h e).2 = [] := by
  have hall : h.lines = [] ++ h.lines := rfl
  have hnext := Progress.next (t := t) (e := { e with header := h, lineIndex := 0, state := .gap })
    hall .nil hall rfl rfl
  exact hnext.2

theorem Account.begin {t : Nat} (hbegins : Begins m header)
    (executor : m.post.executor = (m.pre.executor.start t header).1) :
    Account P c (es ++ [m]) header m.post.executor := by
  obtain ⟨hframes, hreplies⟩ := start_exchanges_nothing t header m.pre.executor
  have hp := start_progress t header m.pre.executor
  rw [hframes, hreplies] at hp
  rw [executor]
  exact ⟨start_sameRequest t header _, sendable_start t, es, m, [], _, rfl, hbegins, by simp, hp⟩

/-- A step that begins no batch carries the account on. -/
theorem Account.snoc (h : Account P c es header m.pre.executor) (hm : Step P c m)
    (hstarts : ¬ Starts m) (hsame : SameRequest m.pre.executor.header m.post.executor.header)
    (hsend : (∀ l ∈ m.pre.executor.header.lines, Sendable l) →
      ∀ l ∈ m.post.executor.header.lines, Sendable l)
    (hcarry : ∀ {errors frames replies},
      Progress header.lines errors frames replies m.pre.executor →
      Progress header.lines errors (frames ++ framesOf m.evs) (replies ++ repliesOf m.evs)
        m.post.executor) : Account P c (es ++ [m]) header m.post.executor := by
  obtain ⟨before, s, since, errors, rfl, hbegins, hsince, hp⟩ := h.begun
  refine ⟨h.same.trans hsame, fun hl => hsend (h.sendable hl), before, s, since ++ [m], errors,
    by simp, hbegins, ?_, ?_⟩
  · intro x hx
    rcases List.mem_append.mp hx with hx | hx
    · exact hsince x hx
    · rw [List.mem_singleton.mp hx]
      exact ⟨hm, hstarts⟩
  · rw [List.flatMap_append, List.flatMap_singleton, framesOf_append, repliesOf_append]
    exact hcarry hp

/-- An executor that is not idle has an account. -/
theorem Lives.account {b : BootInput} (h : Lives P c (setup P b).1 es w) :
    w.executor.state ≠ .idle → ∃ header, Account P c es header w.executor := by
  refine (Lives.cases h).history
    (H := fun es w => w.executor.state ≠ .idle → ∃ header, Account P c es header w.executor)
    (fun hidle => absurd rfl hidle) ?_
  intro es m _ ih hm hstate
  cases hm with
  | booted b' post =>
      rw [post] at hstate
      exact absurd rfl hstate
  | step hm hw =>
      cases hm.exec hw with
      | rest b executor call starts silent =>
          have hbusy : m.pre.executor.state ≠ .idle := by
            rw [executor] at hstate
            exact hstate
          obtain ⟨header, hacc⟩ := ih hbusy
          obtain ⟨hframes, hreplies⟩ := nothing_exchanged silent
          refine ⟨header, hacc.snoc hm starts ?_ ?_ ?_⟩
          · rw [executor]
            exact .refl _
          · rw [executor]
            exact id
          · intro errors frames replies hp
            rw [hframes, hreplies, List.append_nil, List.append_nil, executor]
            exact hp.hint b
      | taken result executor =>
          rw [executor] at hstate
          exact absurd rfl hstate
      | handed t key lines idle queued next executor manager call starts stage time evs =>
          have hbegins : Begins m (runHeader key lines) :=
            .inr ⟨key, lines, ⟨_, by rw [evs]; exact List.mem_cons_self⟩, rfl⟩
          exact ⟨_, .begin hbegins executor⟩
      | started t header idle queued waiting executor manager call starts stage time evs =>
          have hbegins : Begins m header := .inl (by rw [evs]; exact List.mem_cons_self)
          exact ⟨_, .begin hbegins executor⟩
      | called call eq executor starts manager pending stage time evs =>
          have hbusy : m.pre.executor.state ≠ .idle := by
            intro hidle
            rw [executor] at hstate
            exact hstate ((loop_state_idle c.bus call.rx call.t₁ call.t₂ call.t₃ _).mpr hidle)
          obtain ⟨header, hacc⟩ := ih hbusy
          refine ⟨header, hacc.snoc hm starts ?_ ?_ ?_⟩
          · rw [executor]
            exact loop_sameRequest ..
          · rw [executor]
            exact sendable_loop
          · intro errors frames replies hp
            rw [executor, evs]
            exact hp.loop

/-! ## The record -/

/-- A request that is begun was accepted before. -/
theorem Lives.started {b : BootInput} {before since : List Moment} {s : Moment}
    (h : Lives P c (setup P b).1 (before ++ s :: since) w) (hs : Event.started header ∈ s.evs) :
    Accepts P before header := by
  obtain ⟨-, hcase, -⟩ := (Lives.cases h).at
  cases hcase with
  | booted b' post flash silent =>
      have hkind := silent _ hs
      cases hkind
  | step hm hw =>
      cases (step_case hm).source hw hs with
      | started t header free queued waiting => exact Lives.pending h.at.1 header waiting
      | bus hk => cases hk
      | flash hk => cases hk
      | checked _ _ _ _ _ hk => cases hk
      | link hk => cases hk

/-- A batch for the cloud began as a request. -/
theorem Account.started (h : Account P c es header e) (hcloud : e.header.emergency = false)
    {s : Moment} (hs : Begins s header) : Event.started header ∈ s.evs := by
  rcases hs with hs | ⟨key, lines, -, rfl⟩
  · exact hs
  · have hem : (runHeader key lines).emergency = false := h.same.emergency ▸ hcloud
    cases hem

/-- The move that publishes takes a result of the cloud's. -/
theorem StepCase.of_published (hm : StepCase P c m) (hw : Sound m.pre) {payload : Bytes}
    (h : Event.published payload ∈ m.evs) :
    m.pre.executor.state = .done ∧ m.pre.executor.header.emergency = false ∧
      ∃ info log, payload =
          P.serialize (responseDoc m.pre.executor.header c.identity info log) ∧
        payload.length < jsonBuildTruncatedSize := by
  cases hm.source hw h with
  | bus hk => cases hk
  | flash hk => cases hk
  | checked _ _ _ _ _ hk => cases hk
  | link hk => cases hk
  | published info payload chosen evs =>
      have hfinished : Event.finished m.pre.executor.header ∈ m.evs := by
        rw [evs]
        exact List.mem_cons_self
      have hchoice := chooseResponse_case P c m.pre.executor.header info
        (takeLastLog m.pre.executor.header m.pre.dongle.logBuffer).1
      rw [chosen] at hchoice
      obtain ⟨log, hpayload, hshort⟩ := hchoice
      cases hm.source hw hfinished with
      | finished wait info' o header act own result emergency =>
          exact ⟨result, emergency, info, log, hpayload, hshort⟩
      | bus hk => cases hk
      | flash hk => cases hk
      | checked _ _ _ _ _ hk => cases hk
      | link hk => cases hk

/-- A result of the cloud's, as long as it has not been taken, rests on a
request that was accepted and started, and on all there was on the bus since. -/
theorem Lives.finished {b : BootInput} (h : Lives P c (setup P b).1 es w)
    (hdone : w.executor.state = .done) (hcloud : w.executor.header.emergency = false) :
    ∃ before s since request errors, es = before ++ s :: since ∧
      Accepts P before request ∧ Event.started request ∈ s.evs ∧
      (∀ x ∈ since, Step P c x ∧ ¬ Starts x) ∧
      SameRequest request w.executor.header ∧
      ((∀ l ∈ request.lines, Sendable l) → ∀ l ∈ w.executor.header.lines, Sendable l) ∧
      Finished request.lines errors (framesOf (since.flatMap Move.evs))
        (repliesOf (since.flatMap Move.evs)) w.executor := by
  have hbusy : w.executor.state ≠ .idle := by simp [hdone]
  obtain ⟨request, hacc⟩ := Lives.account h hbusy
  obtain ⟨before, s, since, errors, rfl, hbegins, hsince, hprogress⟩ := hacc.begun
  have hstarted := hacc.started hcloud hbegins
  exact ⟨before, s, since, request, errors, rfl, Lives.started h hstarted, hstarted, hsince,
    hacc.same, hacc.sendable, hprogress.done hdone⟩

theorem Lives.published {b : BootInput} {after : List Moment} {payload : Bytes}
    (h : Lives P c (setup P b).1 (es ++ m :: after) w) (hp : Event.published payload ∈ m.evs) :
    m.pre.executor.state = .done ∧ m.pre.executor.header.emergency = false ∧
      ∃ info log, payload =
          P.serialize (responseDoc m.pre.executor.header c.identity info log) ∧
        payload.length < jsonBuildTruncatedSize := by
  obtain ⟨-, hcase, -⟩ := (Lives.cases h).at
  cases hcase with
  | booted b' post flash silent =>
      have hkind := silent _ hp
      cases hkind
  | step hm hw => exact (step_case hm).of_published hw hp

/-- A published response records the batch of a request that was accepted
before: the header as the batch left it, and the batch exchanged, since it was
started and before it ended, all the frames and replies there were on the bus. -/
theorem response_is_a_record {b : BootInput} {after : List Moment} {payload : Bytes}
    (h : Lives P c (setup P b).1 (es ++ m :: after) w) (hp : Event.published payload ∈ m.evs) :
    ∃ before s since request errors info log, es = before ++ s :: since ∧
      Accepts P before request ∧ Event.started request ∈ s.evs ∧
      (∀ x ∈ since, Step P c x ∧ ¬ Starts x) ∧
      SameRequest request m.pre.executor.header ∧
      Finished request.lines errors (framesOf (since.flatMap Move.evs))
        (repliesOf (since.flatMap Move.evs)) m.pre.executor ∧
      payload = P.serialize (responseDoc m.pre.executor.header c.identity info log) ∧
      payload.length < jsonBuildTruncatedSize := by
  obtain ⟨hdone, hcloud, info, log, hpayload, hshort⟩ := Lives.published h hp
  obtain ⟨before, s, since, request, errors, htake, hacc, hstarted, hsince, hsame, -, hfin⟩ :=
    Lives.finished h.at.1 hdone hcloud
  exact ⟨before, s, since, request, errors, info, log, htake, hacc, hstarted, hsince, hsame, hfin,
    hpayload, hshort⟩

/-- A register is asked for, and given. -/
def servedDevice : Platform := bench [requestDoc "7" "01030204000345B2"]

def servedRun : List Moment × World :=
  performAll servedDevice {}
    ([arrives (requestDoc "7" "01030204000345B2") (clockAt 1 0)] ++
      callAfter 2000 [] (clockAt 1 0) ++ callAfter 10 [] (clockAt 1 0) ++
      callAfter 100 [0x01, 0x03, 0x02, 0x00, 0x05, 0x78, 0x47] (clockAt 1 0) ++
      callAfter 10 [] (clockAt 1 0))
    (setup servedDevice unplugged).1

theorem response_is_a_record_served :
    ∃ h : 20 < servedRun.1.length, ∃ payload, Event.published payload ∈ servedRun.1[20].evs ∧
      ∃ request errors frames replies, Accepts servedDevice (servedRun.1.take 20) request ∧
        Finished request.lines errors frames replies servedRun.1[20].pre.executor := by
  have hlen : 20 < servedRun.1.length := by decide +kernel
  have hsome : (servedRun.1[20].evs.filterMap publishedPayload).isEmpty = false := by
    decide +kernel +revert
  have hruns : Runs servedDevice {} (setup servedDevice unplugged).1 servedRun.1 servedRun.2 :=
    performAll_runs rfl
  have hrun : Lives servedDevice {} (setup servedDevice unplugged).1 servedRun.1 servedRun.2 :=
    hruns.mono fun _ hm => .inl hm
  obtain ⟨payload, hmem⟩ := List.exists_mem_of_ne_nil _ (List.isEmpty_eq_false_iff.mp hsome)
  have hpublished : Event.published payload ∈ servedRun.1[20].evs := by
    obtain ⟨ev, hev, hpayload⟩ := List.mem_filterMap.mp hmem
    cases ev <;> cases hpayload
    exact hev
  rw [pick_one servedRun.1 20 hlen] at hrun
  obtain ⟨before, s, since, request, errors, -, -, htake, hacc, -, -, -, hfin, -⟩ :=
    response_is_a_record hrun hpublished
  have haccepts : Accepts servedDevice (servedRun.1.take 20) request := by
    rw [htake]
    exact hacc.mono
  exact ⟨hlen, payload, hpublished, request, errors, _, _, haccepts, hfin⟩

end Gbb
