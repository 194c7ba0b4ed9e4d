import GbbDongle.Lib.Backoff
import GbbDongle.Proofs.Alarm

/-!
# The retry of an undelivered cycle

A cycle that ends with a set left over, and without word from the cloud, is
tried again after a wait. The manager keeps two things for that: the stamp of
the instant the wait is over, and the wait after the next failure, which the
hourly trigger sets to `emergency_retry_initial` and every failure doubles.

The documents promise the wait `Backoff.wait`, which is the initial wait
doubled once for every earlier failure of the series and never more than
`emergency_retry_max`. The code computes `Backoff.delay`: it doubles in 32 bits
before it clamps, and does not clamp the first wait at all. And it finds a
stamp more than half a wrap ahead to be over already. So a series of failures
is exact up to the cycle at which one of these first shows.
-/

namespace Gbb

open History Wrap EmergencyManager

variable {P : Platform} {c : Config} {m : Moment} {es : List Moment} {w : World} {n : Nat}

/-! ## Series of failures -/

/-- The step left a cycle undelivered: `handle_result` went to BACKOFF. -/
def EndsUndelivered (m : Moment) : Prop := ∃ key, Event.resultHandled key .backoff ∈ m.evs

/-- The events that begin a series and lengthen it. -/
def Event.inSeries : Event → Bool
  | .queued .hourly _ => true
  | .resultHandled _ .backoff => true
  | _ => false

/-- The undelivered cycles since the hourly trigger, after an event. -/
def Event.series (n : Nat) : Event → Nat
  | .queued .hourly _ => 0
  | .resultHandled _ .backoff => n + 1
  | _ => n

/-- The undelivered cycles of a run since its last hourly trigger. -/
def undelivered (es : List Moment) : Nat := (es.flatMap Move.evs).foldl Event.series 0

theorem undelivered_snoc : undelivered (es ++ [m]) = m.evs.foldl Event.series (undelivered es) := by
  rw [undelivered, List.flatMap_append, List.foldl_append, List.flatMap_singleton]
  rfl

theorem foldl_series_of_silent {evs : List Event} (h : ∀ ev ∈ evs, ev.inSeries = false) :
    evs.foldl Event.series n = n := by
  induction evs with
  | nil => rfl
  | cons ev evs ih =>
      have hev : Event.series n ev = n := by
        have hno := h ev (by simp)
        unfold Event.series
        split
        · cases hno
        · cases hno
        · rfl
      rw [List.foldl_cons, hev]
      exact ih fun x hx => h x (by simp [hx])

/-- Only the trigger and the end of a cycle have to do with a series. -/
theorem inSeries_of_kind {ev : Event} (hw : ev.kind ≠ .wall) (hc : ev.kind ≠ .cycle) :
    ev.inSeries = false := by
  unfold Event.inSeries
  split
  · exact absurd rfl hw
  · exact absurd rfl hc
  · rfl

theorem inSeries_resultHandled {key : Bytes} {next : EmergencyState} (h : next ≠ .backoff) :
    (Event.resultHandled key next).inSeries = false := by
  cases next with
  | backoff => exact absurd rfl h
  | _ => rfl

/-! ## What a step is to the retry -/

/-- A cycle is queued or running. -/
def InCycle (g : EmergencyManager) : Prop := g.state = .queued ∨ g.state = .executing

inductive RetryCase (c : Config) (m : Moment) : Prop
  | still (delay : m.post.manager.retryDelayMs = m.pre.manager.retryDelayMs)
      (deadline : m.post.manager.retryAt = m.pre.manager.retryAt)
      (backoff : m.post.manager.state = .backoff → m.pre.manager.state = .backoff)
      (inCycle : InCycle m.post.manager →
        InCycle m.pre.manager ∨ m.pre.manager.state = .backoff ∧ Queues m)
      (silent : ∀ ev ∈ m.evs, ev.inSeries = false)
  | hourly (r : ESPTime)
      (delay : m.post.manager.retryDelayMs = c.emergency.retryInitialMs)
      (state : m.post.manager.state = .queued)
      (evs : m.evs = [.queued .hourly r])
  | failed (key : Bytes) (nvs : List Event)
      (executing : m.pre.manager.state = .executing)
      (state : m.post.manager.state = .backoff)
      (deadline : m.post.manager.retryAt = millis m.post.now + m.pre.manager.retryDelayMs)
      (delay : m.post.manager.retryDelayMs =
        if c.emergency.retryMaxMs < m.pre.manager.retryDelayMs * 2 then c.emergency.retryMaxMs
        else m.pre.manager.retryDelayMs * 2)
      (evs : m.evs = nvs ++ [.resultHandled key .backoff])
      (silent : ∀ ev ∈ nvs, ev.inSeries = false)

/-- A step that leaves the manager's timing alone and has no part in a cycle. -/
theorem RetryCase.of_same (delay : m.post.manager.retryDelayMs = m.pre.manager.retryDelayMs)
    (deadline : m.post.manager.retryAt = m.pre.manager.retryAt)
    (state : m.post.manager.state = m.pre.manager.state)
    (silent : ∀ ev ∈ m.evs, ev.kind ≠ .wall ∧ ev.kind ≠ .cycle) : RetryCase c m := by
  refine .still delay deadline (fun h => state ▸ h) (fun h => .inl ?_)
    fun ev hev => inSeries_of_kind (silent ev hev).1 (silent ev hev).2
  rwa [InCycle, ← state]

/-- What a result does to the retry: nothing, or it sets the stamp and doubles
the wait. -/
theorem leaveRun_retry (e : EmergencyConfig) (t : Nat) (g : EmergencyManager) :
    ((leaveRun e t g).state ≠ .backoff ∧ (leaveRun e t g).retryDelayMs = g.retryDelayMs ∧
        (leaveRun e t g).retryAt = g.retryAt) ∨
      ((leaveRun e t g).state = .backoff ∧
        (leaveRun e t g).retryAt = millis t + g.retryDelayMs ∧
        (leaveRun e t g).retryDelayMs =
          if e.retryMaxMs < g.retryDelayMs * 2 then e.retryMaxMs else g.retryDelayMs * 2) := by
  rw [leaveRun]
  split
  · exact .inl ⟨by simp, rfl, rfl⟩
  · split
    · exact .inl ⟨by simp, rfl, rfl⟩
    · split
      · exact .inl ⟨by simp, rfl, rfl⟩
      · exact .inr ⟨rfl, rfl, rfl⟩

/-- The result of a set is handled at the end of its step. -/
theorem Step.result {wait : Nat} {info : Bytes} {o : NvsOutcome} (h : Step P c m)
    (hact : m.act = .poll wait info o) (hdone : m.pre.executor.state = .done)
    (hem : m.pre.executor.header.emergency = true) :
    m.post.manager = (m.pre.manager.handleResult P c.emergency m.post.now o
      m.pre.executor.header m.pre.flash).1 := by
  have hpost : m.post = (Act.perform P c (.poll wait info o) m.pre).1 := by
    rw [← hact]
    exact congrArg Prod.fst h.2
  have hres : m.pre.dongle.executor.hasResult = true := by
    rw [ModbusExecutor.hasResult, hdone]
    rfl
  have hhead : m.pre.dongle.executor.takeResult.1 = m.pre.executor.header := rfl
  have hnow : m.post.now = m.pre.now + wait := by
    rw [hpost]
    rfl
  rw [hnow, hpost]
  show (pollResult P c (m.pre.now + wait) info o m.pre).1.dongle.emergency = _
  simp only [pollResult]
  rw [if_pos hres, hhead, if_pos hem]

theorem message_retry {wall : ESPTime} {o : NvsOutcome} {header : GbbHeader}
    (hf : Handled c.emergency wall header m.pre.manager m.post.manager)
    (evs : m.evs = (m.pre.manager.handleFields P c.emergency wall o header m.pre.flash).2.2 ++
      [.accepted header]) : RetryCase c m := by
  refine .still hf.retryDelayMs hf.retryAt (fun h => ?_) (fun h => .inl ?_) fun ev hev => ?_
  · rw [hf.state] at h
    exact (stateAfter_backoff h).1
  · rw [InCycle, hf.state, stateAfter_executing] at h
    exact h.imp_left (stateAfter_queued _ _ _)
  · rw [evs] at hev
    rcases List.mem_append.mp hev with hev | hev
    · rcases handleFields_evs hev with ⟨-, rfl⟩ | hk
      · rfl
      · exact inSeries_of_kind (by rw [hk]; decide) (by rw [hk]; decide)
    · rw [List.mem_singleton.mp hev]
      rfl

theorem check_retry {t : Nat} {wall : ESPTime} {lastCheck : UInt32}
    (check : CheckCase c.emergency t wall { m.pre.manager with lastCheck := lastCheck }
      (m.post.manager, m.evs)) : RetryCase c m := by
  have hqueues : ∀ {cause r}, m.evs = [.queued cause r] → Queues m := fun he =>
    ⟨_, _, by rw [he]; exact List.mem_singleton.mpr rfl⟩
  have hsilent : m.evs = [] → ∀ ev ∈ m.evs, ev.inSeries = false := by
    intro he ev hev
    rw [he] at hev
    cases hev
  generalize hevs : m.evs = evs at check hqueues hsilent
  generalize hpost : m.post.manager = g at check
  cases check with
  | still =>
      refine .still (by rw [hpost]) (by rw [hpost]) (fun h => ?_) (fun h => .inl ?_)
        (hevs ▸ hsilent rfl)
      · rwa [hpost] at h
      · rwa [hpost] at h
  | emptied =>
      refine .still (by rw [hpost]) (by rw [hpost]) (fun h => ?_) (fun h => ?_)
        (hevs ▸ hsilent rfl)
      · rw [hpost] at h
        cases h
      · rw [hpost, InCycle] at h
        simp at h
  | stamped ha =>
      have ha : m.pre.manager.state = .armed := ha
      refine .still (by rw [hpost]) (by rw [hpost]) (fun h => ?_) (fun h => .inl ?_)
        fun ev hev => ?_
      · rwa [hpost] at h
      · rwa [hpost] at h
      · rw [hevs] at hev
        rw [List.mem_singleton.mp hev]
        rfl
  | hourly ha => exact .hourly _ (by rw [hpost]) (by rw [hpost]) hevs
  | retry hb =>
      refine .still (by rw [hpost]) (by rw [hpost]) (fun h => ?_)
        (fun _ => .inr ⟨hb, hqueues rfl⟩) fun ev hev => ?_
      · rw [hpost] at h
        cases h
      · rw [hevs] at hev
        rw [List.mem_singleton.mp hev]
        rfl

theorem result_retry {o : NvsOutcome} (hx : m.pre.manager.state = .executing)
    (hpost : m.post.manager = (m.pre.manager.handleResult P c.emergency m.post.now o
      m.pre.executor.header m.pre.flash).1)
    (hevs : m.evs = (m.pre.manager.confirm P o m.pre.executor.header m.pre.flash).2.2 ++
      [.resultHandled m.pre.manager.currentKey m.post.manager.state]) : RetryCase c m := by
  have hsilent : ∀ ev ∈ (m.pre.manager.confirm P o m.pre.executor.header m.pre.flash).2.2,
      ev.inSeries = false := by
    intro ev hev
    have hk := confirm_kind hev
    exact inSeries_of_kind (by rw [hk]; decide) (by rw [hk]; decide)
  obtain ⟨s, d, hc, -⟩ := confirm_cases P o m.pre.executor.header m.pre.manager m.pre.flash
  have hleave : m.post.manager = leaveRun c.emergency m.post.now
      { m.pre.manager with store := s, delivered := d } := by
    rw [hpost, handleResult, hc]
  have hr := leaveRun_retry c.emergency m.post.now
    { m.pre.manager with store := s, delivered := d }
  rw [← hleave] at hr
  rcases hr with ⟨hstate, hdelay, hat⟩ | ⟨hstate, hat, hdelay⟩
  · refine .still hdelay hat (fun h => absurd h hstate) (fun _ => .inl (.inr hx)) fun ev hev => ?_
    rw [hevs] at hev
    rcases List.mem_append.mp hev with hev | hev
    · exact hsilent ev hev
    · rw [List.mem_singleton.mp hev]
      exact inSeries_resultHandled hstate
  · rw [hstate] at hevs
    exact .failed _ _ hx hstate hat hdelay hevs hsilent

theorem Step.retry (h : Step P c m) (hw : Sound m.pre) : RetryCase c m := by
  cases step_case h with
  | quiet b executor manager pending flash evs =>
      refine .of_same (by rw [manager]) (by rw [manager]) (by rw [manager]) fun ev hev => ?_
      rcases evs ev hev with rfl | rfl <;> decide
  | message payload wall o header act parsed executor manager pending flash persist evs =>
      have hf := handleFields_handled P c.emergency wall o header m.pre.manager m.pre.flash
      rw [← manager] at hf
      exact message_retry hf evs
  | toggled on o act executor manager pending flash persist evs =>
      refine .of_same (by rw [manager]) (by rw [manager]) (by rw [manager]) fun ev hev => ?_
      rw [nvs_kind (EmergencyStore.setPersistEnabled_isNvs (evs ▸ hev))]
      decide
  | handled t info wait o act result emergency executor manager pending flash persist evs =>
      have hpost := h.result act result emergency
      refine result_retry (hw.owner.mpr ⟨by rw [result]; decide, emergency⟩) hpost ?_
      have hstate : m.post.manager.state = (leaveRun c.emergency t
          (m.pre.manager.confirm P o m.pre.executor.header m.pre.flash).1).state := by
        rw [manager, handleResult]
      rw [evs, hstate]
      rfl
  | finished info wait o act result emergency executor manager pending flash evs =>
      refine .of_same (by rw [manager]) (by rw [manager]) (by rw [manager]) fun ev hev => ?_
      rw [finished_kind (evs ▸ hev)]
      decide
  | handed t key lines free queued next executor manager pending flash evs =>
      refine .still (by rw [manager]) (by rw [manager]) (fun hb => ?_) (fun _ => .inl (.inl queued))
        fun ev hev => ?_
      · rw [manager] at hb
        cases hb
      · rw [evs] at hev
        rcases List.mem_cons.mp hev with rfl | hev
        · rfl
        · have hk := (start_kind hev).1
          exact inSeries_of_kind (by rw [hk]; decide) (by rw [hk]; decide)
  | strayed free queued next =>
      obtain ⟨entry, he⟩ := hw.nextEntry queued
      rw [next] at he
      cases he
  | started t header free queued waiting executor manager pending flash evs =>
      refine .of_same (by rw [manager]) (by rw [manager]) (by rw [manager]) fun ev hev => ?_
      rw [evs] at hev
      rcases List.mem_cons.mp hev with rfl | hev
      · simp [Event.kind]
      · rw [(start_kind hev).1]
        decide
  | executed rx wait₁ wait₂ wait₃ t₁ t₂ t₃ act executor manager pending flash evs =>
      refine .of_same (by rw [manager]) (by rw [manager]) (by rw [manager]) fun ev hev => ?_
      rw [loop_kind (evs ▸ hev)]
      decide
  | checked wait₁ wait₂ t wall lastCheck act due executor check => exact check_retry check

/-! ## What the manager remembers of a series -/

/-- The wait after `n` undelivered cycles, in exact integers. -/
def retryWait (e : EmergencyConfig) (n : Nat) : Nat :=
  Backoff.wait e.retryInitialMs.toNat e.retryMaxMs.toNat n

/-- The wait the code computes. -/
def retryDelay (e : EmergencyConfig) (n : Nat) : Nat :=
  Backoff.delay (2 ^ 31) e.retryInitialMs.toNat e.retryMaxMs.toNat n

theorem toNat_doubled (d max : UInt32) :
    (if max < d * 2 then max else d * 2).toNat = min (d.toNat * 2 % (2 * 2 ^ 31)) max.toNat := by
  have hmul : (d * 2).toNat = d.toNat * 2 % (2 * 2 ^ 31) := UInt32.toNat_mul d 2
  rw [← hmul]
  split
  · next h =>
      rw [UInt32.lt_iff_toNat_lt] at h
      omega
  · next h =>
      rw [UInt32.lt_iff_toNat_lt] at h
      omega

/-- While a cycle is under way or waits for its retry, the manager holds the
wait that the next failure will take. -/
def HoldsDelay (e : EmergencyConfig) (es : List Moment) (w : World) : Prop :=
  InCycle w.manager ∨ w.manager.state = .backoff →
    w.manager.retryDelayMs.toNat = retryDelay e (undelivered es)

theorem undelivered_still (silent : ∀ ev ∈ m.evs, ev.inSeries = false) :
    undelivered (es ++ [m]) = undelivered es := by
  rw [undelivered_snoc, foldl_series_of_silent silent]

theorem undelivered_failed {key : Bytes} {nvs : List Event}
    (evs : m.evs = nvs ++ [.resultHandled key .backoff])
    (silent : ∀ ev ∈ nvs, ev.inSeries = false) :
    undelivered (es ++ [m]) = undelivered es + 1 := by
  rw [undelivered_snoc, evs, List.foldl_append, foldl_series_of_silent silent]
  rfl

theorem undelivered_hourly {r : ESPTime} (evs : m.evs = [.queued .hourly r]) :
    undelivered (es ++ [m]) = 0 := by
  rw [undelivered_snoc, evs]
  rfl

theorem HoldsDelay.snoc (hd : HoldsDelay c.emergency es m.pre) (hm : RetryCase c m) :
    HoldsDelay c.emergency (es ++ [m]) m.post := by
  intro hs
  cases hm with
  | still delay deadline backoff inCycle silent =>
      have hpre : InCycle m.pre.manager ∨ m.pre.manager.state = .backoff := by
        rcases hs with hs | hs
        · exact (inCycle hs).imp_right And.left
        · exact .inr (backoff hs)
      rw [delay, hd hpre, undelivered_still silent]
  | hourly r delay state evs =>
      rw [delay, undelivered_hourly evs]
      rfl
  | failed key nvs executing state deadline delay evs silent =>
      have hpre := hd (.inl (.inr executing))
      rw [delay, undelivered_failed evs silent, toNat_doubled, hpre]
      rfl

/-- Steps of a run from a sound world, as the retry sees them. -/
theorem Runs.retries {u : World} (h : Runs P c u es w) (hu : Sound u) :
    Run (fun m => Step P c m ∧ Sound m.pre ∧ RetryCase c m) u es w :=
  (Run.guarded h hu fun _ hm hw => hw.step (step_case hm)).mono
    fun _ hm => ⟨hm.1, hm.2.1, hm.1.retry hm.2.1⟩

theorem Runs.holdsDelay {b : BootInput} (h : Runs P c (setup P b).1 es w) :
    HoldsDelay c.emergency es w := by
  refine (Runs.retries h (Sound.setup P b)).history (H := HoldsDelay c.emergency) ?_
    fun _ m _ hd hm => hd.snoc hm.2.2
  have hboot := (setup_alarm P b).1
  rintro (hs | hs)
  · rcases hboot with h0 | h0 <;> simp [InCycle, h0] at hs
  · rcases hboot with h0 | h0 <;> simp [h0] at hs

/-! ## Waiting for the retry -/

/-- The step that left a cycle undelivered set the stamp, as far ahead as the
manager's wait was. -/
theorem EndsUndelivered.failed (h : EndsUndelivered m) (hm : RetryCase c m) :
    m.pre.manager.state = .executing ∧ m.post.manager.state = .backoff ∧
      m.post.manager.retryAt = millis m.post.now + m.pre.manager.retryDelayMs := by
  obtain ⟨key, hev⟩ := h
  cases hm with
  | still _ _ _ _ silent => cases silent _ hev
  | hourly r _ _ evs =>
      rw [evs] at hev
      cases List.mem_singleton.mp hev
  | failed _ _ executing state deadline => exact ⟨executing, state, deadline⟩

/-- Until a cycle is queued again none runs, and a retry that is still due is
due when it was. -/
theorem RetryCase.waits {r : UInt32} (hm : RetryCase c m) (hq : ¬ Queues m)
    (hpre : ¬ InCycle m.pre.manager ∧
      (m.pre.manager.state = .backoff → m.pre.manager.retryAt = r)) :
    ¬ InCycle m.post.manager ∧
      (m.post.manager.state = .backoff → m.post.manager.retryAt = r) := by
  cases hm with
  | still delay deadline backoff inCycle silent =>
      refine ⟨fun hu => ?_, fun hb => ?_⟩
      · rcases inCycle hu with h | h
        · exact hpre.1 h
        · exact hq h.2
      · rw [deadline]
        exact hpre.2 (backoff hb)
  | hourly r _ _ evs =>
      exact absurd ⟨_, r, by rw [evs]; exact List.mem_singleton.mpr rfl⟩ hq
  | failed _ _ executing => exact absurd (.inr executing) hpre.1

/-- The check of a manager in BACKOFF is a look at its stamp. -/
theorem checkTrigger_backoff {e : EmergencyConfig} {t : Nat} {wall : ESPTime}
    {g : EmergencyManager} (hs : g.state = .backoff) :
    (g.checkTrigger e t wall).1.state = .queued ↔ reached (millis t) g.retryAt = true := by
  rw [checkTrigger, hs]
  dsimp only
  split
  · next h => simp [h]
  · next h => simp [h, hs]

/-- After the undelivered cycle that ended in `m`, whatever happens short of a
new cycle or a cancelled retry: a check that comes in time queues the retry if
`wait` milliseconds are over, and no earlier. -/
structure RetriesAfter (P : Platform) (c : Config) (wait : Nat) (m : Moment) : Prop where
  positive : 0 < wait
  check : ∀ mid w t wall, Runs P c m.post mid w → (∀ n ∈ mid, ¬ Queues n) →
    w.manager.state = .backoff → w.now ≤ t → InTime (m.post.now + wait) t →
    ((w.manager.checkTrigger c.emergency t wall).1.state = .queued ↔ m.post.now + wait ≤ t)

/-- The `n`-th undelivered cycle of a series, counted from zero, is one that
the code times rightly. -/
structure Fits (e : EmergencyConfig) (n : Nat) : Prop where
  positive : 0 < e.retryInitialMs.toNat
  ordered : e.retryInitialMs.toNat ≤ e.retryMaxMs.toNat
  last : retryWait e n ≤ 2 ^ 31
  earlier : ∀ j < n, retryWait e j < 2 ^ 31

theorem Fits.exact {e : EmergencyConfig} (h : Fits e n) :
    0 < retryWait e n ∧ retryDelay e n = retryWait e n ∧ retryWait e n ≤ 2 ^ 31 :=
  Backoff.series_exact_iff.mpr ⟨h.positive, h.ordered, h.last, h.earlier⟩ n (Nat.le_refl n)

theorem runs_now_le {w w' : World} (h : Runs P c w es w') : w.now ≤ w'.now := by
  refine Run.invariant (I := fun u : World => w.now ≤ u.now) h (Nat.le_refl _) ?_
  intro m hm hle
  exact Nat.le_trans hle hm.now_le

/-- What a check comes to, as long as no cycle has been queued again. -/
theorem check_after {mid : List Moment} {t : Nat} (wall : ESPTime) (hm : Step P c m)
    (hw : Sound m.pre) (hend : EndsUndelivered m) (hrun : Runs P c m.post mid w)
    (hq : ∀ n ∈ mid, ¬ Queues n) (hs : w.manager.state = .backoff) :
    (w.manager.checkTrigger c.emergency t wall).1.state = .queued ↔
      reached (millis t) (millis (m.post.now + m.pre.manager.retryDelayMs.toNat)) = true := by
  obtain ⟨-, hstate, hat⟩ := hend.failed (hm.retry hw)
  have hpost : Sound m.post := hw.step (step_case hm)
  have hstart : ¬ InCycle m.post.manager ∧
      (m.post.manager.state = .backoff → m.post.manager.retryAt = m.post.manager.retryAt) := by
    refine ⟨?_, fun _ => rfl⟩
    rw [InCycle, hstate]
    simp
  have hwait := (Runs.retries hrun hpost).unless
    (I := fun u => ¬ InCycle u.manager ∧
      (u.manager.state = .backoff → u.manager.retryAt = m.post.manager.retryAt))
    hq hstart fun n hn hq hpre => hn.2.2.waits hq hpre
  rw [checkTrigger_backoff hs, hwait.2 hs, hat, millis_add]

/-- A check after an undelivered cycle is right exactly when the stamp was set
`wait` milliseconds ahead and that is at most half a wrap. -/
theorem retriesAfter_iff {wait : Nat} (hm : Step P c m) (hw : Sound m.pre)
    (hend : EndsUndelivered m) :
    RetriesAfter P c wait m ↔
      0 < wait ∧ m.pre.manager.retryDelayMs.toNat = wait ∧ wait ≤ 2 ^ 31 := by
  constructor
  · intro h
    refine ⟨h.positive,
      @eq_of_reached_iff m.post.now _ _ (UInt32.toNat_lt _) h.positive fun t ht hin => ?_⟩
    have hstate := (hend.failed (hm.retry hw)).2.1
    have hnone : ∀ n ∈ ([] : List Moment), ¬ Queues n := fun n hn => nomatch hn
    rw [← check_after .unset hm hw hend .nil hnone hstate]
    exact h.check [] m.post t .unset .nil hnone hstate ht hin
  · rintro ⟨hpos, rfl, hhalf⟩
    refine ⟨hpos, ?_⟩
    intro mid w t wall hrun hq hs ht hin
    have hle := runs_now_le hrun
    rw [check_after wall hm hw hend hrun hq hs]
    exact (reached_iff_le (Nat.le_trans hle ht) (by omega)).mpr hin

/-- The earlier failures of a series are in the run. -/
theorem Runs.earlier {b : BootInput} (h : Runs P c (setup P b).1 es w) :
    ∀ j < undelivered es, ∃ before m after, es = before ++ m :: after ∧ EndsUndelivered m ∧
      undelivered before = j := by
  refine (Runs.retries h (Sound.setup P b)).history (H := fun es _ =>
    ∀ j < undelivered es, ∃ before m after, es = before ++ m :: after ∧ EndsUndelivered m ∧
      undelivered before = j) (fun j hj => absurd hj (Nat.not_lt_zero j)) ?_
  intro es m _ ih hm j hj
  have hkeep : j < undelivered es → ∃ before x after, es ++ [m] = before ++ x :: after ∧
      EndsUndelivered x ∧ undelivered before = j := by
    intro hlt
    obtain ⟨before, x, after, rfl, hx, hb⟩ := ih j hlt
    exact ⟨before, x, after ++ [m], by rw [List.append_assoc, List.cons_append], hx, hb⟩
  cases hm.2.2 with
  | still _ _ _ _ silent =>
      rw [undelivered_still silent] at hj
      exact hkeep hj
  | hourly r _ _ evs =>
      rw [undelivered_hourly evs] at hj
      omega
  | failed key nvs _ _ _ _ evs silent =>
      rw [undelivered_failed evs silent] at hj
      by_cases hlt : j < undelivered es
      · exact hkeep hlt
      · refine ⟨es, m, [], rfl, ⟨key, ?_⟩, by omega⟩
        rw [evs]
        exact List.mem_append_right _ (List.mem_singleton.mpr rfl)

/-- What the code computes of the wait is right for this cycle. -/
theorem Runs.retriesAfter_iff {b : BootInput} {before after : List Moment}
    (h : Runs P c (setup P b).1 (before ++ m :: after) w) (hend : EndsUndelivered m) :
    RetriesAfter P c (retryWait c.emergency (undelivered before)) m ↔
      0 < retryWait c.emergency (undelivered before) ∧
        retryDelay c.emergency (undelivered before) =
          retryWait c.emergency (undelivered before) ∧
        retryWait c.emergency (undelivered before) ≤ 2 ^ 31 := by
  obtain ⟨hpre, hm, -⟩ := h.at
  have hw := Runs.sound hpre
  have hd := Runs.holdsDelay hpre (.inl (.inr (hend.failed (hm.retry hw)).1))
  rw [Gbb.retriesAfter_iff hm hw hend, hd]

/-- In every run the retries of undelivered cycles come after the exact wait,
each at the first check from then on, if and only if none of these cycles is
beyond what the code times rightly; and of the checks after such a cycle
exactly those that are in time decide rightly. -/
theorem backoff_exact_iff {b : BootInput} (h : Runs P c (setup P b).1 es w) :
    ((∀ before m after, es = before ++ m :: after → EndsUndelivered m →
        RetriesAfter P c (retryWait c.emergency (undelivered before)) m) ↔
      ∀ before m after, es = before ++ m :: after → EndsUndelivered m →
        Fits c.emergency (undelivered before)) ∧
    ∀ before m after, es = before ++ m :: after → EndsUndelivered m →
      Fits c.emergency (undelivered before) →
      ∀ mid w t wall, Runs P c m.post mid w → (∀ n ∈ mid, ¬ Queues n) →
        w.manager.state = .backoff → w.now ≤ t →
        (((w.manager.checkTrigger c.emergency t wall).1.state = .queued ↔
            m.post.now + retryWait c.emergency (undelivered before) ≤ t) ↔
          InTime (m.post.now + retryWait c.emergency (undelivered before)) t) := by
  refine ⟨⟨?_, ?_⟩, ?_⟩
  · rintro hall before m after rfl hend
    have hseries : ∀ j ≤ undelivered before, 0 < retryWait c.emergency j ∧
        retryDelay c.emergency j = retryWait c.emergency j ∧
        retryWait c.emergency j ≤ 2 ^ 31 := by
      intro j hj
      by_cases hlt : j < undelivered before
      · obtain ⟨before', m', after', rfl, hend', rfl⟩ := Runs.earlier h.at.1 j hlt
        rw [List.append_assoc, List.cons_append] at h hall
        exact (Runs.retriesAfter_iff h hend').mp (hall before' m' _ rfl hend')
      · obtain rfl : j = undelivered before := by omega
        exact (Runs.retriesAfter_iff h hend).mp (hall before m after rfl hend)
    obtain ⟨hpos, hord, hlast, hearlier⟩ := Backoff.series_exact_iff.mp hseries
    exact ⟨hpos, hord, hlast, hearlier⟩
  · rintro hfits before m after rfl hend
    rw [Runs.retriesAfter_iff h hend]
    exact (hfits before m after rfl hend).exact
  · rintro before m after rfl hend hf mid w t wall hrun hq hs ht
    obtain ⟨hpre, hm, -⟩ := h.at
    have hw := Runs.sound hpre
    have hd := Runs.holdsDelay hpre (.inl (.inr (hend.failed (hm.retry hw)).1))
    have hle := runs_now_le hrun
    have hlast := hf.last
    rw [check_after wall hm hw hend hrun hq hs, hd, hf.exact.2.1]
    exact reached_iff_le (Nat.le_trans hle ht) (by omega)

/-- A maximum below half a wrap fits series of any length. -/
theorem fits_of_lt {e : EmergencyConfig} (hpos : 0 < e.retryInitialMs.toNat)
    (hord : e.retryInitialMs.toNat ≤ e.retryMaxMs.toNat) (hmax : e.retryMaxMs.toNat < 2 ^ 31)
    (n : Nat) : Fits e n := by
  have hle : ∀ j, retryWait e j ≤ e.retryMaxMs.toNat := fun j => Backoff.wait_le_max
  refine ⟨hpos, hord, ?_, ?_⟩
  · have hn := hle n
    omega
  · intro j _
    have hj := hle j
    omega

def unheardDevice : Platform := bench [keepDoc 1 "A" "01060001000259CB"]

/-- A set kept for an inverter that does not answer when its hour comes. -/
def unheardRun (c : Config) : List Moment × World :=
  performAll unheardDevice c
    ([arrives (keepDoc 1 "A" "01060001000259CB") (clockAt 0 0)] ++
      callAfter 5000 [] (clockAt 2 20) ++ callAfter 1 [] (clockAt 2 20) ++
      callAfter 2000 [] (clockAt 2 20) ++ callAfter 1 [] (clockAt 2 20))
    (setup unheardDevice unplugged).1

/-- With the default settings it is tried again after a minute. -/
theorem backoff_exact_iff_unheard :
    ∃ h : 20 < (unheardRun {}).1.length,
      RetriesAfter unheardDevice {} (60 * 1000) (unheardRun {}).1[20] := by
  have hlen : 20 < (unheardRun {}).1.length := by decide +kernel
  have hrun : Runs unheardDevice {} (setup unheardDevice unplugged).1 (unheardRun {}).1
      (unheardRun {}).2 := performAll_runs rfl
  have hends : EndsUndelivered (unheardRun {}).1[20] := ⟨text "A", by decide +kernel +revert⟩
  have hwait : retryWait {} (undelivered ((unheardRun {}).1.take 20)) = 60 * 1000 := by
    decide +kernel
  have hexact := (backoff_exact_iff hrun).1.mpr (fun before m after _ _ =>
    fits_of_lt (by decide) (by decide) (by decide) _) _ _ _ (pick_one _ 20 hlen) hends
  rw [hwait] at hexact
  exact ⟨hlen, hexact⟩

/-- An initial wait of twenty minutes under a maximum of fifteen. -/
def eager : Config where
  emergency := { retryInitialMs := 20 * 60 * 1000, retryMaxMs := 15 * 60 * 1000 }

/-- The first wait is not clamped: when the fifteen minutes are over the retry
is not queued. -/
theorem first_wait_exceeds_max :
    Runs unheardDevice eager (setup unheardDevice unplugged).1 (unheardRun eager).1
        (unheardRun eager).2 ∧
      ∃ h : 20 < (unheardRun eager).1.length,
        EndsUndelivered (unheardRun eager).1[20] ∧
        undelivered ((unheardRun eager).1.take 20) = 0 ∧
        retryWait eager.emergency 0 = 15 * 60 * 1000 ∧
        ((unheardRun eager).1[20].post.manager.checkTrigger eager.emergency
          ((unheardRun eager).1[20].post.now + 15 * 60 * 1000) (clockAt 2 35)).1.state =
            .backoff ∧
        ¬ RetriesAfter unheardDevice eager (retryWait eager.emergency 0)
          (unheardRun eager).1[20] := by
  have hlen : 20 < (unheardRun eager).1.length := by decide +kernel
  have hwait : retryWait eager.emergency 0 = 15 * 60 * 1000 := by decide +kernel
  have ⟨hends, hstate, hcheck⟩ :
      Event.resultHandled (text "A") .backoff ∈ (unheardRun eager).1[20].evs ∧
      (unheardRun eager).1[20].post.manager.state = .backoff ∧
      ((unheardRun eager).1[20].post.manager.checkTrigger eager.emergency
        ((unheardRun eager).1[20].post.now + 15 * 60 * 1000) (clockAt 2 35)).1.state =
          .backoff := by
    decide +kernel +revert
  refine ⟨performAll_runs rfl, hlen, ⟨_, hends⟩, by decide +kernel, hwait, hcheck, ?_⟩
  intro hretries
  rw [hwait] at hretries
  have hdue := (hretries.check [] _ _ (clockAt 2 35) .nil (fun n hn => nomatch hn) hstate
    (Nat.le_add_right _ (15 * 60 * 1000)) (fun _ => by omega)).mpr (Nat.le_refl _)
  rw [hcheck] at hdue
  cases hdue

end Gbb
