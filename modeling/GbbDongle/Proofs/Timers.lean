import GbbDongle.Lib.Timer
import GbbDongle.Proofs.Backoff
import GbbDongle.Proofs.Latency

/-!
# What the loop does from time to time

Keepalives and the checks of the alarm are paced by two polled timers. Neither
ever runs faster than its interval, and in a loop that comes round every `d`
milliseconds neither misses its turn by more than four rounds. So an overdue
alarm is raised, and a retry that is due is queued, within a check interval and
a few rounds of the loop.
-/

namespace Gbb

open History Wrap Polling EmergencyManager

variable {P : Platform} {c : Config} {m : Moment} {es fs : List Moment} {w w₀ w₁ : World}
  {d : Nat} {b : BootInput}

/-! ## The two timers -/

/-- When a stage of the loop reads the clock, and what it takes to get there. -/
def keepaliveLook (m : Moment) : Option Nat :=
  match m.act with
  | .keepalive wait connected =>
      if m.pre.dongle.cloudConfigured && connected then some (m.pre.now + wait) else none
  | _ => none

def checkLook (m : Moment) : Option Nat :=
  match m.act with
  | .emergency wait₁ _ _ => some (m.pre.now + wait₁)
  | _ => none

def keepaliveTimer : Timer World Act Event where
  interval := keepaliveIntervalMs
  stamp w := w.dongle.lastKeepalive
  clock := World.now
  look := keepaliveLook

def checkTimer : Timer World Act Event where
  interval := checkIntervalMs
  stamp w := w.manager.lastCheck
  clock := World.now
  look := checkLook

theorem applyLogLevel_lastKeepalive (level : Bytes) (g : GbbDongle) :
    (applyLogLevel level g).lastKeepalive = g.lastKeepalive ∧
      (applyLogLevel level g).cloudConfigured = g.cloudConfigured := by
  simp only [applyLogLevel]
  repeat' split
  all_goals exact ⟨rfl, rfl⟩

/-- Of all that the device does, only keepalives touch their stamp, and nothing
touches the settings. -/
theorem Step.keepalive (hm : Step P c m) :
    m.post.dongle.cloudConfigured = m.pre.dongle.cloudConfigured ∧
      ((∀ wait connected, m.act ≠ .keepalive wait connected) →
        m.post.dongle.lastKeepalive = m.pre.dongle.lastKeepalive) := by
  have hpost : m.post.dongle = (m.act.run P c m.pre).1.dongle :=
    congrArg (fun r => r.1.dongle) hm.2
  rw [hpost]
  cases hact : m.act with
  | message payload wall o =>
      simp only [Act.run, onCloudMessage]
      cases acceptedHeader P payload with
      | none => exact ⟨rfl, fun _ => rfl⟩
      | some header =>
          simp only [acceptHeader]
          split
          · obtain ⟨hstamp, hsettings⟩ := applyLogLevel_lastKeepalive header.logLevel
              { m.pre.dongle with requestsReceived := m.pre.dongle.requestsReceived + 1 }
            exact ⟨hsettings, fun _ => hstamp⟩
          · exact ⟨rfl, fun _ => rfl⟩
  | persistSwitch on o =>
      simp only [Act.run, togglePersist]
      cases m.pre.persistSwitch <;> exact ⟨rfl, fun _ => rfl⟩
  | enter networkUp =>
      simp only [Act.run, enterLoop]
      split <;> exact ⟨rfl, fun _ => rfl⟩
  | poll wait info o =>
      simp only [Act.run, pollResult]
      split
      · split
        · exact ⟨rfl, fun _ => rfl⟩
        · simp only [publishResponse]
          split <;> exact ⟨rfl, fun _ => rfl⟩
      · exact ⟨rfl, fun _ => rfl⟩
  | dispatch wait =>
      simp only [Act.run, Gbb.dispatch]
      split
      · exact ⟨rfl, fun _ => rfl⟩
      · split
        · exact ⟨rfl, fun _ => rfl⟩
        · split <;> exact ⟨rfl, fun _ => rfl⟩
  | keepalive wait connected =>
      simp only [Act.run, sendKeepalive]
      split <;> exact ⟨rfl, fun hno => absurd rfl (hno wait connected)⟩
  | boot b => exact absurd (hact ▸ hm.1) (by simp [Act.fits])
  | baudRate | log | execute | emergency => exact ⟨rfl, fun _ => rfl⟩

theorem keepalive_obeys (hm : Step P c m) : keepaliveTimer.Obeys m where
  clock_le := hm.now_le
  look_le t ht := by
    cases hact : m.act <;> simp only [keepaliveTimer, keepaliveLook, hact, Option.mem_def,
      reduceCtorEq] at ht
    next wait connected =>
      have hnow : m.post.now = m.pre.now + wait := by
        rw [show m.post.now = m.pre.now + m.act.wait from congrArg (fun r => r.1.now) hm.2, hact]
        rfl
      split at ht
      · obtain rfl := Option.some.inj ht
        exact ⟨Nat.le_add_right _ _, Nat.le_of_eq hnow.symm⟩
      · cases ht
  stamp_eq := by
    by_cases hlook : ∃ wait connected, m.act = .keepalive wait connected
    · obtain ⟨wait, connected, hact⟩ := hlook
      have hpost : m.post.dongle = (sendKeepalive (m.pre.now + wait) connected m.pre).1.dongle := by
        rw [show m.post.dongle = (m.act.run P c m.pre).1.dongle from
          congrArg (fun r => r.1.dongle) hm.2, hact]
        rfl
      show m.post.dongle.lastKeepalive = _
      rw [hpost, sendKeepalive, Timer.firing]
      simp only [keepaliveTimer, keepaliveLook, hact]
      cases m.pre.dongle.cloudConfigured && connected with
      | false => rfl
      | true =>
          rw [Bool.true_and, if_pos rfl, Option.filter_some]
          split <;> rfl
    · have hno : ∀ wait connected, m.act ≠ .keepalive wait connected :=
        fun wait connected hact => hlook ⟨wait, connected, hact⟩
      have hnone : keepaliveLook m = none := by
        rw [keepaliveLook]
        split
        · next wait connected hact => exact absurd hact (hno wait connected)
        · rfl
      have hfiring : keepaliveTimer.firing m = none := by
        rw [Timer.firing]
        simp only [keepaliveTimer, hnone, Option.filter_none]
      rw [hfiring]
      exact hm.keepalive.2 hno

theorem keepalive_now {wait : Nat} {connected : Bool} (hm : Step P c m)
    (hact : m.act = .keepalive wait connected) :
    m.post.now = m.pre.now + wait ∧
      m.evs = (sendKeepalive (m.pre.now + wait) connected m.pre).2 := by
  have hnow : m.post.now = m.pre.now + m.act.wait := congrArg (fun r => r.1.now) hm.2
  have hevs : m.evs = (m.act.run P c m.pre).2 := congrArg Prod.snd hm.2
  rw [hact] at hnow hevs
  exact ⟨hnow, hevs⟩

/-- When a keepalive was sent. -/
def keepaliveAt (m : Moment) : Option Nat :=
  match m.act with
  | .keepalive _ _ => if .keepalive ∈ m.evs then some m.post.now else none
  | _ => none

def keepalives (es : List Moment) : List Nat := es.filterMap keepaliveAt

/-- The timer works when a keepalive is sent. -/
theorem keepalive_firing (hm : Step P c m) : keepaliveTimer.firing m = keepaliveAt m := by
  rw [Timer.firing, keepaliveAt]
  simp only [keepaliveTimer, keepaliveLook]
  cases hact : m.act with
  | keepalive wait connected =>
      obtain ⟨hnow, hevs⟩ := keepalive_now hm hact
      dsimp only
      rw [hevs, hnow, sendKeepalive]
      cases m.pre.dongle.cloudConfigured && connected with
      | false => rfl
      | true =>
          rw [Bool.true_and, if_pos rfl, Option.filter_some]
          split
          · rw [if_pos (List.mem_singleton.mpr rfl)]
          · rw [if_neg List.not_mem_nil]
  | _ => rfl

theorem keepalive_firings (h : Run (Step P c) w₀ es w) :
    keepaliveTimer.firings es = keepalives es :=
  List.filterMap_congr fun _ hm => keepalive_firing (h.mem hm)

theorem loop_lastCheck (e : EmergencyConfig) (t₁ t₂ : Nat) (wall : ESPTime) (g : EmergencyManager) :
    (g.loop e t₁ t₂ wall).1.lastCheck =
      if elapsed (millis t₁) g.lastCheck checkIntervalMs then millis t₁ else g.lastCheck := by
  rw [EmergencyManager.loop]
  split
  · have hc := checkTrigger_case e t₂ wall { g with lastCheck := millis t₁ }
    generalize checkTrigger e t₂ wall { g with lastCheck := millis t₁ } = r at hc ⊢
    cases hc <;> rfl
  · rfl

theorem handleFields_lastCheck (e : EmergencyConfig) (wall : ESPTime) (o : NvsOutcome)
    (header : GbbHeader) (g : EmergencyManager) (flash : Flash) :
    (g.handleFields P e wall o header flash).1.lastCheck = g.lastCheck := by
  have hnote (now : ESPTime) : (g.noteInvSetup now).lastCheck = g.lastCheck := by
    rw [noteInvSetup]
    cases now.valid <;> cases g.state <;> rfl
  have hafter (g : EmergencyManager) : (afterStore g).lastCheck = g.lastCheck := by
    rw [afterStore]
    repeat' split
    all_goals rfl
  have hstore (g : EmergencyManager) :
      (g.storeLines P o header.setKey header.linesOnNoInvSetup flash).1.lastCheck =
        g.lastCheck := by
    simp only [storeLines]
    split
    · exact hafter _
    · exact hafter _
  have hfirst : (if header.invSetup then g.noteInvSetup (e.read wall) else g).lastCheck =
      g.lastCheck := by
    split
    · exact hnote _
    · rfl
  simp only [handleFields]
  split
  · exact (hstore _).trans hfirst
  · exact hfirst

theorem handleResult_lastCheck (e : EmergencyConfig) (t : Nat) (o : NvsOutcome) (header : GbbHeader)
    (g : EmergencyManager) (flash : Flash) :
    (g.handleResult P e t o header flash).1.lastCheck = g.lastCheck := by
  obtain ⟨s, d, hc, -⟩ := confirm_cases P o header g flash
  rw [handleResult, hc]
  simp only [leaveRun]
  repeat' split
  all_goals rfl

theorem check_now {wait₁ wait₂ : Nat} {wall : ESPTime} (hm : Step P c m)
    (hact : m.act = .emergency wait₁ wait₂ wall) :
    m.post.now = m.pre.now + (wait₁ + wait₂) ∧ m.post.manager =
      (m.pre.manager.loop c.emergency (m.pre.now + wait₁) (m.pre.now + wait₁ + wait₂) wall).1 := by
  have hnow : m.post.now = m.pre.now + m.act.wait := congrArg (fun r => r.1.now) hm.2
  have hmanager : m.post.manager = (m.act.run P c m.pre).1.manager :=
    congrArg (fun r => r.1.manager) hm.2
  rw [hact] at hnow hmanager
  exact ⟨hnow, hmanager⟩

theorem check_obeys (hm : Step P c m) : checkTimer.Obeys m where
  clock_le := hm.now_le
  look_le t ht := by
    cases hact : m.act <;> simp only [checkTimer, checkLook, hact, Option.mem_def,
      reduceCtorEq] at ht
    next wait₁ wait₂ wall =>
      obtain ⟨hnow, -⟩ := check_now hm hact
      obtain rfl := Option.some.inj ht
      show m.pre.now ≤ _ ∧ _ ≤ m.post.now
      omega
  stamp_eq := by
    show m.post.manager.lastCheck = _
    by_cases hlook : ∃ wait₁ wait₂ wall, m.act = .emergency wait₁ wait₂ wall
    · obtain ⟨wait₁, wait₂, wall, hact⟩ := hlook
      rw [(check_now hm hact).2, loop_lastCheck, Timer.firing]
      simp only [checkTimer, checkLook, hact, Option.filter_some]
      split <;> rfl
    · have hno : ∀ wait₁ wait₂ wall, m.act ≠ .emergency wait₁ wait₂ wall :=
        fun wait₁ wait₂ wall hact => hlook ⟨wait₁, wait₂, wall, hact⟩
      have hfiring : checkTimer.firing m = none := by
        have hnone : checkLook m = none := by
          rw [checkLook]
          split
          · next wait₁ wait₂ wall hact => exact absurd hact (hno wait₁ wait₂ wall)
          · rfl
        rw [Timer.firing]
        simp only [checkTimer, hnone, Option.filter_none]
      rw [hfiring]
      show _ = m.pre.manager.lastCheck
      cases step_case hm with
      | quiet b executor manager => rw [manager]
      | message payload wall o header act parsed executor manager =>
          rw [manager]
          exact handleFields_lastCheck ..
      | handled t info wait o act result emergency executor manager =>
          rw [manager]
          exact handleResult_lastCheck ..
      | toggled on o act executor manager => rw [manager]
      | finished info wait o act result emergency executor manager => rw [manager]
      | handed t key lines free queued next executor manager => rw [manager]
      | strayed free queued next executor manager => rw [manager]
      | started t header free queued waiting executor manager => rw [manager]
      | executed rx wait₁ wait₂ wait₃ t₁ t₂ t₃ act executor manager => rw [manager]
      | checked wait₁ wait₂ t wall lastCheck act => exact absurd act (hno wait₁ wait₂ wall)

/-! ## The loop comes round -/

/-- When the loop gets to a stage that looks at a timer. -/
def visit (s : Stage) (m : Moment) : Option Nat :=
  match m.act with
  | .keepalive wait _ => if s = .keepalive then some (m.pre.now + wait) else none
  | .emergency wait₁ _ _ => if s = .emergency then some (m.pre.now + wait₁) else none
  | _ => none

/-- The stages between the executor's and `s`. -/
def Late (s : Stage) (stage : Stage) : Prop :=
  stage = .keepalive ∨ (stage = .emergency ∧ s = .emergency)

/-- The last visit was at `t`: no call of the executor since, or one that the
next visit follows. -/
def Recent (d : Nat) (s : Stage) (t : Nat) (es : List Moment) (w : World) : Prop :=
  t ≤ w.now ∧ w.now ≤ t + 2 * d ∧
    ((lastCall es).t₁ ≤ t ∨ (Late s w.stage ∧ (lastCall es).t₁ ≤ t + d))

/-- The two stages that look at a timer. -/
def Looks (s : Stage) : Prop := s = .keepalive ∨ s = .emergency

/-- A stage that is due is visited before the loop comes round. -/
theorem Step.late {s : Stage} (hm : Step P c m) (hlooks : Looks s) (hs : Late s m.pre.stage)
    (hno : visit s m = none) : Late s m.post.stage := by
  have hstage : m.post.stage = m.act.next m.pre.stage := congrArg (fun r => r.1.stage) hm.2
  have hfits := hm.1
  rw [hstage]
  cases hact : m.act with
  | log level line => exact hs
  | keepalive wait connected =>
      rw [visit, hact] at hno
      have hne : s ≠ .keepalive := by simpa using hno
      exact .inr ⟨rfl, hlooks.resolve_left hne⟩
  | emergency wait₁ wait₂ wall =>
      rw [visit, hact] at hno
      rw [hact] at hfits
      have hne : s ≠ .emergency := by simpa using hno
      have hpre : m.pre.stage = .emergency := by simpa [Act.fits] using hfits
      rcases hs with hs | ⟨-, hs⟩
      · rw [hpre] at hs
        cases hs
      · exact absurd hs hne
  | message | persistSwitch | baudRate | enter | poll | dispatch | execute | boot =>
      rw [hact] at hfits
      rcases hs with hs | ⟨hs, -⟩ <;> simp [Act.fits, hs] at hfits

theorem Step.visit_time {s : Stage} {t : Nat} (hm : Step P c m) (h : visit s m = some t) :
    m.pre.now ≤ t ∧ t ≤ m.post.now ∧ callOf m = none := by
  have hnow : m.post.now = m.pre.now + m.act.wait := congrArg (fun r => r.1.now) hm.2
  cases hact : m.act <;> simp only [visit, hact, reduceCtorEq, Option.ite_none_right_eq_some,
    Option.some.injEq] at h
  all_goals
    obtain ⟨-, rfl⟩ := h
    rw [hact] at hnow
    simp only [Act.wait] at hnow
    refine ⟨by omega, by omega, ?_⟩
    rw [callOf, hact]

/-- One move on: a visit is recent, or the last one still is. -/
theorem Recent.step {s : Stage} {t : Nat} (h : Recent d s t es m.pre) (hm : Timed P c m)
    (hrun : Run (Timed P c) w₀ es m.pre) (hp : Punctual d (es ++ [m])) (hlooks : Looks s) :
    match visit s m with
    | none => Recent d s t (es ++ [m]) m.post
    | some t' => t ≤ t' ∧ t' ≤ t + 2 * d ∧ Recent d s t' (es ++ [m]) m.post := by
  obtain ⟨hpast, hsoon, hcall⟩ := h
  have hnow := hm.now
  have hlast := hp.last
  have hbehind := lastCall_le hrun
  have hreach : (lastCall es).t₁ ≤ t + d := by
    rcases hcall with hcall | ⟨-, hcall⟩ <;> omega
  cases hv : visit s m with
  | some t' =>
      obtain ⟨hfrom, hto, hnone⟩ := hm.step.visit_time hv
      refine ⟨by omega, by omega, hto, by omega, .inl ?_⟩
      rw [lastCall_none hnone]
      omega
  | none =>
      refine ⟨by omega, by omega, ?_⟩
      cases hc : callOf m with
      | none =>
          rw [lastCall_none hc]
          rcases hcall with hcall | ⟨hlate, hcall⟩
          · exact .inl hcall
          · exact .inr ⟨hm.step.late hlooks hlate hv, hcall⟩
      | some call =>
          rw [lastCall_some hc]
          cases hm.exec with
          | rest b executor call' => rw [call'] at hc; cases hc
          | taken result executor call' => rw [call'] at hc; cases hc
          | handed t key lines idle queued next executor manager call' => rw [call'] at hc; cases hc
          | started t header idle queued waiting executor manager call' =>
              rw [call'] at hc
              cases hc
          | called call' eq executor starts manager pending stage time =>
              obtain rfl := Option.some.inj (hc.symm.trans eq)
              -- a call comes from the execute stage, and the next visit after it
              have hno : ¬ Late s m.pre.stage := by
                rw [stage.1]
                rintro (hs | ⟨hs, -⟩) <;> cases hs
              have hfirst := hcall.resolve_right fun h => hno h.1
              exact .inr ⟨.inl stage.2, by omega⟩

/-- In a punctual run the visits of a stage are at most two rounds apart. -/
theorem visits_cadence {s : Stage} (hlooks : Looks s) (h₁ : Run (Timed P c) w₀ es w₁)
    (h₂ : Run (Timed P c) w₁ fs w) (hp : Punctual d (es ++ fs)) :
    (w₁.now :: fs.filterMap (visit s)).IsChain (fun t t' => t ≤ t' ∧ t' ≤ t + 2 * d) ∧
      ∃ t, (w₁.now :: fs.filterMap (visit s)).getLast? = some t ∧ Recent d s t (es ++ fs) w := by
  refine h₂.history (H := fun fs w => Punctual d (es ++ fs) →
    (w₁.now :: fs.filterMap (visit s)).IsChain (fun t t' => t ≤ t' ∧ t' ≤ t + 2 * d) ∧
      ∃ t, (w₁.now :: fs.filterMap (visit s)).getLast? = some t ∧ Recent d s t (es ++ fs) w)
    ?_ ?_ hp
  · intro _
    rw [List.append_nil]
    have hbehind := lastCall_le h₁
    exact ⟨.singleton _, w₁.now, rfl, Nat.le_refl _, by omega, .inl (by omega)⟩
  · intro fs m hrun ih hm hp
    rw [← List.append_assoc] at hp
    obtain ⟨hchain, t, hlast, hrecent⟩ := ih hp.of_append
    have hnext := hrecent.step hm (h₁.append hrun) hp hlooks
    rw [List.filterMap_append, ← List.append_assoc]
    cases hv : visit s m with
    | none =>
        rw [hv] at hnext
        rw [List.filterMap_cons_none hv, List.filterMap_nil, List.append_nil]
        exact ⟨hchain, t, hlast, hnext⟩
    | some t' =>
        rw [hv] at hnext
        obtain ⟨hle, hsoon, hnext⟩ := hnext
        rw [List.filterMap_cons_some hv, List.filterMap_nil, ← List.cons_append]
        refine ⟨List.isChain_append.mpr ⟨hchain, .singleton _, ?_⟩, t', List.getLast?_concat, hnext⟩
        intro x hx y hy
        obtain rfl : x = t := Option.some.inj (hx.symm.trans hlast)
        obtain rfl : t' = y := Option.some.inj hy
        exact ⟨hle, hsoon⟩

/-- A timer that is looked at in each round does not rest for longer than its
interval and four rounds. -/
theorem quiet_stretch {s : Stage} {T : Timer World Act Event} (hlooks : Looks s)
    (hobeys : ∀ m, Step P c m → T.Obeys m) (hvisits : T.looks fs = fs.filterMap (visit s))
    (h₁ : Run (Timed P c) w₀ es w₁) (h₂ : Run (Timed P c) w₁ fs w) (hp : Punctual d (es ++ fs))
    (hd : T.interval.toNat + 2 * d ≤ 2 ^ 32) (hquiet : T.firings fs = []) :
    w.now ≤ w₁.now + T.interval.toNat + 4 * d := by
  obtain ⟨hchain, t, hlast, hrecent⟩ := visits_cadence hlooks h₁ h₂ hp
  have hrun : Run T.Obeys w₁ fs w := h₂.mono fun m hm => hobeys m hm.step
  rw [← hvisits] at hchain hlast
  have hlooked := Timer.quiet_lt hrun hquiet hd hchain
  obtain ⟨-, hsoon, -⟩ := hrecent
  rcases List.mem_cons.mp (List.mem_of_getLast? hlast) with rfl | hmem
  · omega
  · have := hlooked t hmem
    omega

theorem Run.timed_from (h₁ : Runs P c (setup P b).1 es w₁) (h₂ : Run (Step P c) w₁ fs w) :
    Run (Timed P c) w₁ fs w := by
  refine (h₂.guarded (Runs.sound h₁) fun _ hm hw => hw.step (step_case hm)).mono ?_
  intro m hm
  exact ⟨hm.1, hm.2.1, hm.1.exec hm.2.1, hm.1.now_le⟩

/-! ## Keepalives -/

theorem Runs.cloudConfigured (h : Runs P c (setup P b).1 es w) :
    w.dongle.cloudConfigured = b.cloudConfigured := by
  refine h.invariant (I := fun w => w.dongle.cloudConfigured = b.cloudConfigured) rfl ?_
  intro m hm hi
  exact hm.keepalive.1.trans hi

/-- No two keepalives are less than a minute apart, nor is the first sent in the
first minute; and a loop that comes round every `d` milliseconds sends one in
every minute and four rounds that it is connected. -/
theorem keepalives_regular (h₁ : Runs P c (setup P b).1 es w₁) (h₂ : Run (Step P c) w₁ fs w) :
    (0 :: keepalives (es ++ fs)).IsChain (fun t t' => t + 60000 ≤ t') ∧
      (b.cloudConfigured = true → Punctual d (es ++ fs) → 60000 + 2 * d ≤ 2 ^ 32 →
        (∀ m ∈ fs, ∀ wait, m.act ≠ .keepalive wait false) → w₁.now + 60000 + 4 * d < w.now →
          ∃ t ∈ keepalives fs, w₁.now ≤ t ∧ t ≤ w.now) := by
  constructor
  · have hrun := h₁.append h₂
    have hstamp : keepaliveTimer.stamp (setup P b).1 = millis 0 := rfl
    have hspaced := Timer.firings_spaced (hrun.mono fun _ hm => keepalive_obeys hm) hstamp
      (Nat.le_refl _)
    rw [keepalive_firings hrun] at hspaced
    exact hspaced
  · intro hcloud hp hd hconnected hlong
    have hset : ∀ gs u, Run (Step P c) w₁ gs u → u.dongle.cloudConfigured = true := by
      intro gs u hgs
      exact (Runs.cloudConfigured (h₁.append hgs)).trans hcloud
    have hvisits : keepaliveTimer.looks fs = fs.filterMap (visit .keepalive) := by
      refine List.filterMap_congr fun m hm => ?_
      obtain ⟨before, after, rfl⟩ := List.append_of_mem hm
      have hpre := hset before m.pre h₂.at.1
      show keepaliveLook m = visit .keepalive m
      rw [keepaliveLook, visit]
      cases hact : m.act with
      | keepalive wait connected =>
          cases connected with
          | false => exact absurd hact (hconnected m hm wait)
          | true => simp [hpre]
      | _ => simp
    have htimed₁ := Runs.timed h₁
    have htimed₂ := Run.timed_from h₁ h₂
    by_contra hnone
    have hquiet : keepaliveTimer.firings fs = [] := by
      rw [keepalive_firings h₂, List.eq_nil_iff_forall_not_mem]
      intro t ht
      refine hnone ⟨t, ht, ?_⟩
      obtain ⟨m, hm, hat⟩ := List.mem_filterMap.mp ht
      obtain ⟨before, after, rfl⟩ := List.append_of_mem hm
      obtain ⟨hbefore, hstep, hafter⟩ := h₂.at
      obtain ⟨hfiring, -⟩ := Timer.firing_eq_some ((keepalive_firing hstep).trans hat)
      obtain ⟨hfrom, hto⟩ := (keepalive_obeys hstep).look_le t hfiring
      have hle := runs_now_le hbefore
      have hle' := runs_now_le hafter
      exact ⟨hle.trans hfrom, hto.trans hle'⟩
    have hshort := quiet_stretch (.inl rfl) (fun _ hm => keepalive_obeys hm) hvisits htimed₁ htimed₂
      hp hd hquiet
    have hinterval : keepaliveTimer.interval.toNat = 60000 := rfl
    omega

/-- A loop that comes round once a minute, connected. -/
def connectedRun : List Moment × World :=
  performAll (bench []) {}
    (List.replicate 6 [.enter true, .poll 60000 [] .ok, .dispatch 0, .execute [] 0 0 0,
      .keepalive 0 true, .emergency 0 0 .unset]).flatten (setup (bench []) unplugged).1

theorem keepalives_regular_connected :
    (0 :: keepalives connectedRun.1).IsChain (fun t t' => t + 60000 ≤ t') ∧
      ∃ t ∈ keepalives connectedRun.1, t ≤ connectedRun.2.now := by
  have hrun : Runs (bench []) {} (setup (bench []) unplugged).1 connectedRun.1 connectedRun.2 :=
    performAll_runs rfl
  have hpunctual : Punctual 60000 connectedRun.1 := by decide +kernel
  have hconnected : ∀ m ∈ connectedRun.1, ∀ wait, m.act ≠ .keepalive wait false := by
    have hall : ∀ m ∈ connectedRun.1, keepaliveLook m ≠ none ∨ visit .keepalive m = none := by
      decide +kernel
    intro m hm wait hact
    rcases hall m hm with h | h
    · simp [keepaliveLook, hact] at h
    · simp [visit, hact] at h
  obtain ⟨hspaced, hregular⟩ := keepalives_regular (d := 60000) .nil hrun
  obtain ⟨t, ht, -, hle⟩ := hregular rfl hpunctual (by decide) hconnected (by decide +kernel)
  exact ⟨hspaced, t, ht, hle⟩

/-! ## Checks -/

/-- Time passes in moves: one of them gets past `T`. -/
theorem exists_crossing {T : Nat} (h : Run (Timed P c) w₁ fs w) (hfrom : w₁.now ≤ T)
    (hto : T < w.now) : ∃ before m after, fs = before ++ m :: after ∧
      m.pre.now ≤ T ∧ T < m.post.now := by
  refine h.history (H := fun fs w => T < w.now → ∃ before m after, fs = before ++ m :: after ∧
    m.pre.now ≤ T ∧ T < m.post.now) (fun hto => absurd hfrom (Nat.not_le_of_lt hto)) ?_ hto
  intro fs m _ ih hm hto
  by_cases hpre : T < m.pre.now
  · obtain ⟨before, x, after, rfl, hx⟩ := ih hpre
    exact ⟨before, x, after ++ [m], by simp, hx⟩
  · exact ⟨fs, m, [], rfl, Nat.le_of_not_lt hpre, hto⟩

theorem Punctual.move_le {before after : List Moment}
    (hp : Punctual d (es ++ (before ++ m :: after)))
    (h₁ : Run (Timed P c) w₀ es w₁) (h₂ : Run (Timed P c) w₁ (before ++ m :: after) w) :
    m.post.now ≤ m.pre.now + d := by
  have hcall := hp (es ++ before) m after (by simp)
  have hbehind := lastCall_le (h₁.append h₂.at.1)
  omega

/-- A loop that comes round every `d` milliseconds checks the alarm within a
check interval and five rounds. -/
theorem check_comes_round (h₁ : Run (Timed P c) w₀ es w₁) (h₂ : Run (Timed P c) w₁ fs w)
    (hp : Punctual d (es ++ fs)) (hd : 5000 + 2 * d ≤ 2 ^ 32)
    (hlong : w₁.now + 5000 + 4 * d < w.now) :
    ∃ before m after wait₁ wait₂ wall, fs = before ++ m :: after ∧
      m.act = .emergency wait₁ wait₂ wall ∧
      elapsed (millis (m.pre.now + wait₁)) m.pre.manager.lastCheck checkIntervalMs = true ∧
      m.post.now ≤ w₁.now + 5000 + 5 * d := by
  obtain ⟨gs, x, hs, rfl, hfrom, hto⟩ := exists_crossing h₂ (by omega) hlong
  have hsoon := hp.move_le h₁ h₂
  have hvisits (fs : List Moment) : checkTimer.looks fs = fs.filterMap (visit .emergency) := by
    refine List.filterMap_congr fun m _ => ?_
    show checkLook m = visit .emergency m
    rw [checkLook, visit]
    cases m.act <;> simp
  have hinit : Run (Timed P c) w₁ (gs ++ [x]) x.post := .snoc h₂.at.1 h₂.at.2.1
  have hfires : checkTimer.firings (gs ++ [x]) ≠ [] := by
    intro hquiet
    have hpunctual : Punctual d (es ++ (gs ++ [x])) := by
      have heq : es ++ (gs ++ x :: hs) = es ++ (gs ++ [x]) ++ hs := by simp
      rw [heq] at hp
      exact hp.of_append
    have hshort := quiet_stretch (.inr rfl) (fun _ hm => check_obeys hm) (hvisits _) h₁ hinit
      hpunctual hd hquiet
    have hinterval : checkTimer.interval.toNat = 5000 := rfl
    omega
  obtain ⟨t, ht⟩ := List.exists_mem_of_ne_nil _ hfires
  obtain ⟨m, hm, hfiring⟩ := List.mem_filterMap.mp ht
  obtain ⟨hlook, hdue⟩ := Timer.firing_eq_some hfiring
  cases hact : m.act <;> simp only [checkTimer, checkLook, hact, reduceCtorEq,
    Option.some.injEq] at hlook
  next wait₁ wait₂ wall =>
    subst hlook
    obtain ⟨before, after, hsplit⟩ := List.append_of_mem hm
    have hall : gs ++ x :: hs = before ++ m :: (after ++ hs) := by
      rw [List.append_cons, hsplit, List.append_assoc, List.cons_append]
    rw [hsplit] at hinit
    have hbefore : m.post.now ≤ x.post.now :=
      runs_now_le (hinit.at.2.2.mono fun _ hm => hm.step)
    exact ⟨before, m, after ++ hs, wait₁, wait₂, wall, hall, hact, hdue, by omega⟩

/-- The check that comes round finds what all moves keep until a `Q`-move. If
with all that is kept a due check is such a move, there is a first one, and it
comes in time. -/
theorem check_finds {I : World → Prop} {Q : Moment → Prop} (h₁ : Run (Timed P c) w₀ es w₁)
    (h₂ : Run (Timed P c) w₁ fs w) (hp : Punctual d (es ++ fs)) (hd : 5000 + 2 * d ≤ 2 ^ 32)
    (hlong : w₁.now + 5000 + 4 * d < w.now) (hfirst : I w₁)
    (hkeeps : ∀ m ∈ fs, Timed P c m → ¬ Q m → I m.pre → I m.post)
    (hchecks : ∀ m ∈ fs, Timed P c m → I m.pre → m.post.now ≤ w₁.now + 5000 + 5 * d →
      ∀ wait₁ wait₂ wall, m.act = .emergency wait₁ wait₂ wall →
        elapsed (millis (m.pre.now + wait₁)) m.pre.manager.lastCheck checkIntervalMs = true →
        Q m) :
    ∃ before m after, fs = before ++ m :: after ∧ Q m ∧ I m.pre ∧
      m.post.now ≤ w₁.now + 5000 + 5 * d := by
  obtain ⟨before, m, after, wait₁, wait₂, wall, rfl, hact, hdue, hsoon⟩ :=
    check_comes_round h₁ h₂ hp hd hlong
  obtain ⟨hbefore, hm, -⟩ := h₂.at
  rcases hbefore.until (Q := Q) hfirst
    (fun x hx => hkeeps x (List.mem_append_left _ hx)) with ⟨hi, -⟩ | hearlier
  · have hq := hchecks m (by simp) hm hi hsoon wait₁ wait₂ wall hact hdue
    exact ⟨before, m, after, rfl, hq, hi, hsoon⟩
  · obtain ⟨earlier, x, later, rfl, hq, hi, -⟩ := hearlier
    have hle := runs_now_le (hbefore.at.2.2.mono fun _ hx => hx.step)
    have hnow := hm.now
    exact ⟨earlier, x, later ++ m :: after, by simp, hq, hi, by omega⟩

/-! ## The alarm -/

/-- A message that is no InvSetup and leaves sets behind changes nothing about a
manager that has sets. -/
theorem message_state {wall : ESPTime} {header : GbbHeader} {g g' : EmergencyManager}
    (handled : Handled c.emergency wall header g g') (hno : header.invSetup = false)
    (hstored : g'.store.sets.isEmpty = false) (hs : g.state ≠ .empty) : g'.state = g.state := by
  have hsets : (storedBy header g.store).sets.isEmpty = false := by
    rw [← handled.store.sets]
    exact hstored
  rw [handled.state, stateAfter, hno, hsets]
  simp [hs]

/-- While no InvSetup comes in and the sets are there, an armed manager stays as
it is until it queues a cycle. -/
structure StillArmed (g₀ g : EmergencyManager) : Prop where
  armed : g.state = .armed
  invSetupAwaitingTime : g.invSetupAwaitingTime = false
  bootLoadedAwaitingTime : g.bootLoadedAwaitingTime = false
  lastInvSetupTs : g.lastInvSetupTs = g₀.lastInvSetupTs

theorem StillArmed.step {g₀ : EmergencyManager} (h : StillArmed g₀ m.pre.manager)
    (hm : Step P c m) (hw : Sound m.pre) (hstored : m.post.sets.isEmpty = false)
    (hsilent : ∀ r, ¬ Notes P c r m) (hquiet : ¬ Queues m) :
    StillArmed g₀ m.post.manager := by
  cases (step_case hm).alarm hw with
  | still same =>
      refine ⟨?_, same.invSetupAwaitingTime.trans h.invSetupAwaitingTime,
        same.bootLoadedAwaitingTime.trans h.bootLoadedAwaitingTime,
        same.lastInvSetupTs.trans h.lastInvSetupTs⟩
      rcases same.state with hs | ⟨hs, -⟩
      · exact hs.trans h.armed
      · rw [h.armed] at hs
        cases hs
  | message payload wall o header act parsed handled =>
      have hno : header.invSetup = false := by
        rw [← Bool.not_eq_true]
        exact fun hi => hsilent _ ((notes_message_iff act parsed).mpr ⟨hi, rfl⟩)
      refine ⟨?_, ?_, ?_, ?_⟩
      · rw [message_state handled hno hstored (by simp [h.armed])]
        exact h.armed
      · rw [handled.invSetupAwaitingTime, hno]
        exact h.invSetupAwaitingTime
      · rw [handled.bootLoadedAwaitingTime, h.bootLoadedAwaitingTime, Bool.and_false]
      · rw [handled.lastInvSetupTs, hno]
        simpa using h.lastInvSetupTs
  | checked wait₁ wait₂ t wall lastCheck act check =>
      have hkept (g : EmergencyManager) (hg : m.post.manager = g)
          (hc : CheckCase c.emergency t wall { m.pre.manager with lastCheck := lastCheck }
            (g, m.evs)) : StillArmed g₀ g := by
        generalize hevs : m.evs = evs at hc
        cases hc with
        | still => exact ⟨h.armed, h.invSetupAwaitingTime, h.bootLoadedAwaitingTime,
            h.lastInvSetupTs⟩
        | emptied _ hempty =>
            have hsets : m.post.sets = m.pre.sets := by
              show m.post.manager.store.sets = _
              rw [hg]
            rw [hsets] at hstored
            exact absurd (hempty.symm.trans hstored) (by decide)
        | stamped _ _ _ hflags =>
            have h1 : m.pre.manager.invSetupAwaitingTime = false := h.invSetupAwaitingTime
            have h2 : m.pre.manager.bootLoadedAwaitingTime = false := h.bootLoadedAwaitingTime
            simp [h1, h2] at hflags
        | hourly => exact absurd ⟨_, _, hevs ▸ List.mem_singleton.mpr rfl⟩ hquiet
        | retry => exact absurd ⟨_, _, hevs ▸ List.mem_singleton.mpr rfl⟩ hquiet
      exact hkept _ rfl check
  | result t s d' executing =>
      rw [h.armed] at executing
      cases executing

/-- A due check of an armed manager queues a cycle when the clock shows that the
alarm is overdue. -/
theorem StillArmed.queues {g₀ : EmergencyManager} {wait₁ wait₂ : Nat} {wall : ESPTime}
    (h : StillArmed g₀ m.pre.manager) (hm : Step P c m)
    (hact : m.act = .emergency wait₁ wait₂ wall)
    (hdue : elapsed (millis (m.pre.now + wait₁)) m.pre.manager.lastCheck checkIntervalMs = true)
    (hstored : m.pre.sets.isEmpty = false)
    (hover : ∀ r ∈ reading c m, r.valid = true ∧ overdue c.emergency r.timestamp g₀ = true) :
    Queues m := by
  obtain ⟨hvalid, hoverdue⟩ := hover (c.emergency.read wall) (by rw [reading, hact]; rfl)
  have hwatches : Watches c (c.emergency.read wall).timestamp m :=
    ⟨⟨wait₁, wait₂, wall, hact, hdue, hvalid, rfl⟩, h.armed, hstored,
      h.invSetupAwaitingTime, h.bootLoadedAwaitingTime⟩
  have hnow : overdue c.emergency (c.emergency.read wall).timestamp m.pre.manager = true := by
    rw [overdue, h.lastInvSetupTs]
    exact hoverdue
  obtain ⟨r, hr⟩ := (hwatches.queues_iff hm).mpr hnow
  exact ⟨_, r, hr⟩

/-- Whenever the alarm is overdue a check interval and four rounds of the loop
long, with sets stored and no InvSetup coming in, a cycle is queued. -/
theorem alarm_raised_in_time (h₁ : Runs P c (setup P b).1 es w₁) (h₂ : Run (Step P c) w₁ fs w)
    (hp : Punctual d (es ++ fs)) (hd : 5000 + 2 * d ≤ 2 ^ 32)
    (armed : w₁.manager.state = .armed) (dated : w₁.manager.invSetupAwaitingTime = false ∧
      w₁.manager.bootLoadedAwaitingTime = false)
    (stored : w₁.sets.isEmpty = false ∧ ∀ m ∈ fs, m.post.sets.isEmpty = false)
    (silence : ∀ m ∈ fs, ∀ r, ¬ Notes P c r m)
    (hover : ∀ m ∈ fs, ∀ r ∈ reading c m, r.valid = true ∧
      overdue c.emergency r.timestamp w₁.manager = true)
    (hlong : w₁.now + 5000 + 4 * d < w.now) : ∃ m ∈ fs, Queues m := by
  obtain ⟨before, m, after, rfl, hq, -⟩ := check_finds (Q := Queues)
    (I := fun u => StillArmed w₁.manager u.manager ∧ u.sets.isEmpty = false)
    (Runs.timed h₁) (Run.timed_from h₁ h₂) hp hd hlong ⟨⟨armed, dated.1, dated.2, rfl⟩, stored.1⟩
    (fun x hx hm hquiet hi => ⟨hi.1.step hm.step hm.sound (stored.2 x hx) (silence x hx) hquiet,
      stored.2 x hx⟩)
    (fun x hx hm hi _ wait₁ wait₂ wall hact hdue => hi.1.queues hm.step hact hdue hi.2
      fun r hr => hover x hx r hr)
  exact ⟨m, by simp, hq⟩

/-- A set kept for an inverter that does not answer, and `n` calls of `loop`
from twenty past two on, twenty seconds apart. -/
def slowRun (n : Nat) : List Moment × World :=
  performAll unheardDevice {}
    (arrives (keepDoc 1 "A" "01060001000259CB") (clockAt 0 0) ::
      (List.replicate n (callAfter 20000 [] (clockAt 2 20))).flatten)
    (setup unheardDevice unplugged).1

theorem slowRun_runs (n : Nat) :
    Runs unheardDevice {} (setup unheardDevice unplugged).1 (slowRun n).1 (slowRun n).2 := by
  have hcalls : ∀ n, fitsAll (List.replicate n (callAfter 20000 [] (clockAt 2 20))).flatten
      .outside = true := by
    intro n
    induction n with
    | zero => rfl
    | succ n ih => exact ih
  exact performAll_runs (hcalls n)

theorem alarm_raised_in_time_unheard : ∃ m ∈ (slowRun 5).1.drop 1, Queues m := by
  have hlen : 0 < (slowRun 5).1.length := by decide +kernel
  have hrun := slowRun_runs 5
  have hpunctual : Punctual 20000 (slowRun 5).1 := by decide +kernel
  have hstart : (slowRun 5).1[0].post.manager.state = .armed ∧
      ((slowRun 5).1[0].post.manager.invSetupAwaitingTime = false ∧
        (slowRun 5).1[0].post.manager.bootLoadedAwaitingTime = false) ∧
      (slowRun 5).1[0].post.sets.isEmpty = false ∧
      (slowRun 5).1[0].post.now + 5000 + 4 * 20000 < (slowRun 5).2.now ∧
      ∀ m ∈ (slowRun 5).1.drop 1, ∀ r ∈ reading {} m, r.valid = true ∧
        overdue {} r.timestamp (slowRun 5).1[0].post.manager = true := by
    decide +kernel +revert
  have hsets : ∀ m ∈ (slowRun 5).1.drop 1, m.post.sets.isEmpty = false ∧
      noted unheardDevice {} m = none := by decide +kernel
  obtain ⟨harmed, hdated, hstored, hlong, hover⟩ := hstart
  rw [pick_one (slowRun 5).1 0 hlen] at hrun hpunctual
  rw [List.append_cons] at hpunctual
  exact alarm_raised_in_time (.snoc hrun.at.1 hrun.at.2.1) hrun.at.2.2 hpunctual (by decide) harmed
    hdated ⟨hstored, fun m hm => (hsets m hm).1⟩
    (fun m hm r hn => nomatch (hsets m hm).2.symm.trans hn) hover hlong

/-! ## Retries -/

/-- While no InvSetup comes in and the sets are there, a retry stands until it
is queued. -/
theorem backoff_stands (hb : m.pre.manager.state = .backoff) (hm : Step P c m) (hw : Sound m.pre)
    (hstored : m.post.sets.isEmpty = false) (hsilent : ∀ r, ¬ Notes P c r m)
    (hquiet : ¬ Queues m) :
    m.post.manager.state = .backoff ∧ m.post.manager.retryAt = m.pre.manager.retryAt := by
  constructor
  · cases (step_case hm).alarm hw with
    | still same =>
        rcases same.state with hs | ⟨hs, -⟩
        · exact hs.trans hb
        · rw [hb] at hs
          cases hs
    | message payload wall o header act parsed handled =>
        have hno : header.invSetup = false := by
          rw [← Bool.not_eq_true]
          exact fun hi => hsilent _ ((notes_message_iff act parsed).mpr ⟨hi, rfl⟩)
        rw [message_state handled hno hstored (by simp [hb])]
        exact hb
    | checked wait₁ wait₂ t wall lastCheck act check =>
        generalize m.post.manager = g at check ⊢
        generalize hevs : m.evs = evs at check
        cases check with
        | still => exact hb
        | emptied hs | stamped hs | hourly hs =>
            have hs' : m.pre.manager.state = .armed := hs
            rw [hb] at hs'
            cases hs'
        | retry => exact absurd ⟨_, _, hevs ▸ List.mem_singleton.mpr rfl⟩ hquiet
    | result t s d' executing =>
        rw [hb] at executing
        cases executing
  · cases hm.retry hw with
    | still delay deadline => exact deadline
    | hourly r _ _ evs => exact absurd ⟨_, r, evs ▸ List.mem_singleton.mpr rfl⟩ hquiet
    | failed key nvs executing =>
        rw [hb] at executing
        cases executing

/-- The check of a due retry queues it. -/
theorem due_retry_queues {wait₁ wait₂ : Nat} {wall : ESPTime} {g : Nat} (hm : Step P c m)
    (hb : m.pre.manager.state = .backoff) (hat : m.pre.manager.retryAt = millis g)
    (hact : m.act = .emergency wait₁ wait₂ wall)
    (hdue : elapsed (millis (m.pre.now + wait₁)) m.pre.manager.lastCheck checkIntervalMs = true)
    (hpast : g ≤ m.post.now) (hsoon : m.post.now < g + 2 ^ 31) : Queues m := by
  have hevs : m.evs = (m.pre.manager.loop c.emergency (m.pre.now + wait₁)
      (m.pre.now + wait₁ + wait₂) wall).2 := by
    rw [show m.evs = (m.act.run P c m.pre).2 from congrArg Prod.snd hm.2, hact]
    rfl
  have hnow : m.pre.now + wait₁ + wait₂ = m.post.now := by
    rw [(check_now hm hact).1, Nat.add_assoc]
  have hreached : reached (millis m.post.now) (millis g) = true := by
    rw [reached_of_le hpast]
    omega
  refine ⟨.retry, c.emergency.read wall, ?_⟩
  rw [hevs, EmergencyManager.loop, if_pos hdue, checkTrigger, hb, hnow, hat, hreached]
  exact List.mem_singleton.mpr rfl

/-- After an undelivered cycle, as long as its wait is one that the code times
rightly: with sets stored and no InvSetup coming in, the next cycle is queued
within the wait, a check interval and six rounds of the loop. -/
theorem retry_queued_in_time (h : Runs P c (setup P b).1 (es ++ m :: fs) w)
    (hp : Punctual d (es ++ m :: fs)) (hd : 5000 + 6 * d < 2 ^ 31) (hend : EndsUndelivered m)
    (hfits : Fits c.emergency (undelivered es))
    (stored : ∀ x ∈ fs, x.post.sets.isEmpty = false)
    (silence : ∀ x ∈ fs, ∀ r, ¬ Notes P c r x)
    (hlong : m.post.now + retryWait c.emergency (undelivered es) + 5000 + 6 * d < w.now) :
    ∃ x ∈ fs, Queues x := by
  obtain ⟨hbefore, hm, hafter⟩ := h.at
  have hw := Runs.sound hbefore
  obtain ⟨hexecuting, hbackoff, hat⟩ := hend.failed (hm.retry hw)
  have hdelay := Runs.holdsDelay hbefore (.inl (.inr hexecuting))
  obtain ⟨-, hexact, hhalf⟩ := hfits.exact
  rw [millis_add, hdelay, hexact] at hat
  generalize hg : m.post.now + retryWait c.emergency (undelivered es) = g at hat hlong
  have hto : Runs P c (setup P b).1 (es ++ [m]) m.post := .snoc hbefore hm
  have htimed := Run.timed_from hto hafter
  have hpunctual : Punctual d ((es ++ [m]) ++ fs) := by
    rw [List.append_assoc, List.singleton_append]
    exact hp
  have hkeeps : ∀ x ∈ fs, Timed P c x → ¬ Queues x →
      x.pre.manager.state = .backoff ∧ x.pre.manager.retryAt = millis g →
      x.post.manager.state = .backoff ∧ x.post.manager.retryAt = millis g := by
    intro x hx hm hquiet ⟨hb, hr⟩
    obtain ⟨hb', hr'⟩ :=
      backoff_stands hb hm.step hm.sound (stored x hx) (silence x hx) hquiet
    exact ⟨hb', hr'.trans hr⟩
  -- the first state past the deadline, and a check from there on
  obtain ⟨gs, x, hs, rfl, hfrom, hcross⟩ := exists_crossing (T := g) htimed (by omega) (by omega)
  have hsoon := hpunctual.move_le (Runs.timed hto) htimed
  have hstretch : Run (Timed P c) m.post (gs ++ [x]) x.post :=
    .snoc htimed.at.1 htimed.at.2.1
  have hin : ∀ y ∈ gs ++ [x], y ∈ gs ++ x :: hs := by
    intro y hy
    rw [List.append_cons]
    exact List.mem_append_left _ hy
  rcases hstretch.until (Q := Queues)
    (I := fun u => u.manager.state = .backoff ∧ u.manager.retryAt = millis g) ⟨hbackoff, hat⟩
    (fun y hy => hkeeps y (hin y hy)) with ⟨hstands, -⟩ | ⟨before, y, after, hy, hq, -⟩
  · obtain ⟨before, y, after, rfl, hq, -⟩ := check_finds (Q := Queues)
      (I := fun u => (u.manager.state = .backoff ∧ u.manager.retryAt = millis g) ∧ g < u.now)
      ((Runs.timed hto).append hstretch) htimed.at.2.2 (by simpa using hpunctual) (by omega)
      (by omega) ⟨hstands, hcross⟩
      (fun y hy hm hquiet hi => ⟨hkeeps y (by simp [hy]) hm hquiet hi.1, hi.2.trans_le hm.now⟩)
      (fun y hy hm hi hbound wait₁ wait₂ wall hact hdue =>
        due_retry_queues hm.step hi.1.1 hi.1.2 hact hdue (hi.2.le.trans hm.now) (by omega))
    exact ⟨y, by simp, hq⟩
  · exact ⟨y, hin y (by simp [hy]), hq⟩

theorem retry_queued_in_time_unheard : ∃ x ∈ (slowRun 14).1.drop 21, Queues x := by
  have hlen : 20 < (slowRun 14).1.length := by decide +kernel
  have hrun := slowRun_runs 14
  have hpunctual : Punctual 20000 (slowRun 14).1 := by decide +kernel
  have hends : Event.resultHandled (text "A") .backoff ∈ (slowRun 14).1[20].evs ∧
      (slowRun 14).1[20].post.now + retryWait {} (undelivered ((slowRun 14).1.take 20)) + 5000 +
        6 * 20000 < (slowRun 14).2.now := by decide +kernel +revert
  have hsets : ∀ x ∈ (slowRun 14).1.drop 21, x.post.sets.isEmpty = false ∧
      noted unheardDevice {} x = none := by decide +kernel
  rw [pick_one (slowRun 14).1 20 hlen] at hrun hpunctual
  exact retry_queued_in_time hrun hpunctual (by decide) ⟨_, hends.1⟩
    (fits_of_lt (by decide) (by decide) (by decide) _) (fun x hx => (hsets x hx).1)
    (fun x hx r hn => nomatch (hsets x hx).2.symm.trans hn) hends.2

end Gbb
