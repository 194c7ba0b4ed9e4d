import GbbDongle.Proofs.Cycle

/-!
# The hourly deadline

The manager keeps one timestamp and three flags about the InvSetup messages of
a run, and the check reads its decision off them. What follows says what each
of them knows. A mark is an InvSetup with the time it was dated by: the reading
of its message, or, where there was none, the reading of the first check after
the sync. A timestamp that is set is no older than any mark, and a cycle that
may still be retried began in an hour after all of them; so no cycle is queued
in the hour of a mark.

The converse fails where the end of a cycle takes the timestamp away, and the
flag that tells a cycle that the cloud is back outlives a cycle that a message
abandons.
-/

namespace Gbb

open History Wrap EmergencyManager

variable {P : Platform} {c : Config} {m : Moment} {es : List Moment} {w : World}

/-! ## InvSetup -/

/-- The reading of the wall clock in a step that may look at it. -/
def reading (c : Config) (m : Moment) : Option ESPTime :=
  match m.act with
  | .message _ wall _ | .emergency _ _ wall => some (c.emergency.read wall)
  | _ => none

/-- The reading at which the step handles a message with `IsInvSetup != 0`. -/
def noted (P : Platform) (c : Config) (m : Moment) : Option ESPTime :=
  (arrived P m).bind fun header => if header.invSetup then reading c m else none

/-- The step handled such a message at the reading `r`. -/
def Notes (P : Platform) (c : Config) (r : ESPTime) (m : Moment) : Prop := noted P c m = some r

instance (r : ESPTime) : Decidable (Notes P c r m) := inferInstanceAs (Decidable (_ = _))

theorem not_notes_of_unheard (h : arrived P m = none) (r : ESPTime) : ¬ Notes P c r m := by
  rw [Notes, noted, h]
  nofun

theorem notes_message_iff {payload : Bytes} {wall : ESPTime} {o : NvsOutcome} {header : GbbHeader}
    (act : m.act = .message payload wall o) (parsed : acceptedHeader P payload = some header)
    {r : ESPTime} :
    Notes P c r m ↔ header.invSetup = true ∧ c.emergency.read wall = r := by
  rw [Notes, noted, arrived, act]
  dsimp only
  rw [parsed, Option.bind_some, reading, act]
  cases header.invSetup <;> simp

/-- A check is no message. -/
theorem unheard_check {wait₁ wait₂ : Nat} {wall : ESPTime}
    (act : m.act = .emergency wait₁ wait₂ wall) : arrived P m = none := by
  rw [arrived, act]

/-! ## What a step is to the alarm -/

/-- The alarm as a step without an opinion leaves it; a cycle may go on. -/
structure SameAlarm (g g' : EmergencyManager) : Prop where
  lastInvSetupTs : g'.lastInvSetupTs = g.lastInvSetupTs
  invSetupAwaitingTime : g'.invSetupAwaitingTime = g.invSetupAwaitingTime
  bootLoadedAwaitingTime : g'.bootLoadedAwaitingTime = g.bootLoadedAwaitingTime
  cloudBack : g'.cloudBack = g.cloudBack
  state : g'.state = g.state ∨ (g.state = .queued ∧ g'.state = .executing)

theorem SameAlarm.refl (g : EmergencyManager) : SameAlarm g g := ⟨rfl, rfl, rfl, rfl, .inl rfl⟩

inductive AlarmCase (P : Platform) (c : Config) (m : Moment) : Prop
  | still (same : SameAlarm m.pre.manager m.post.manager)
      (silent : ∀ ev ∈ m.evs, ev.kind ≠ .wall) (noResult : ¬ HandlesResult m)
      (unheard : arrived P m = none)
  | message (payload : Bytes) (wall : ESPTime) (o : NvsOutcome) (header : GbbHeader)
      (act : m.act = .message payload wall o)
      (parsed : acceptedHeader P payload = some header)
      (handled : Handled c.emergency wall header m.pre.manager m.post.manager)
      (only : ∀ ev ∈ m.evs, ev.kind = .wall →
        header.invSetup = true ∧ ev = .invSetup (c.emergency.read wall))
      (noResult : ¬ HandlesResult m)
  | checked (wait₁ wait₂ t : Nat) (wall : ESPTime) (lastCheck : UInt32)
      (act : m.act = .emergency wait₁ wait₂ wall)
      (check : CheckCase c.emergency t wall { m.pre.manager with lastCheck := lastCheck }
        (m.post.manager, m.evs))
      (noResult : ¬ HandlesResult m)
  | result (t : Nat) (s : EmergencyStore) (d : UInt32)
      (executing : m.pre.manager.state = .executing)
      (leave : LeaveCase c.emergency t { m.pre.manager with store := s, delivered := d }
        m.post.manager)
      (event : Event.resultHandled m.pre.manager.currentKey m.post.manager.state ∈ m.evs)
      (silent : ∀ ev ∈ m.evs, ev.kind ≠ .wall)
      (time : m.pre.now ≤ t ∧ t ≤ m.post.now)
      (unheard : arrived P m = none)

theorem not_handlesResult_of_kind (h : ∀ ev ∈ m.evs, ev.kind ≠ .cycle) : ¬ HandlesResult m :=
  fun ⟨_, _, hev⟩ => h _ hev rfl

/-- Events that have nothing to do with clock or cycle leave the alarm be. -/
theorem AlarmCase.of_silent (same : SameAlarm m.pre.manager m.post.manager)
    (unheard : arrived P m = none)
    (silent : ∀ ev ∈ m.evs, ev.kind ≠ .wall ∧ ev.kind ≠ .cycle) : AlarmCase P c m :=
  .still same (fun ev hev => (silent ev hev).1)
    (not_handlesResult_of_kind fun ev hev => (silent ev hev).2) unheard

theorem StepCase.alarm (hm : StepCase P c m) (hw : Sound m.pre) : AlarmCase P c m := by
  cases hm with
  | quiet b executor manager pending flash evs stage unheard =>
      refine .of_silent (by rw [manager]; exact .refl _) unheard fun ev hev => ?_
      rcases evs ev hev with rfl | rfl <;> simp [Event.kind]
  | message payload wall o header act parsed executor manager pending flash persist evs =>
      have hf := handleFields_handled P c.emergency wall o header m.pre.manager m.pre.flash
      rw [← manager] at hf
      refine .message payload wall o header act parsed hf (fun ev hev hk => ?_)
        (not_handlesResult_of_kind fun ev hev => ?_)
      · rw [evs] at hev
        rcases List.mem_append.mp hev with hev | hev
        · rcases handleFields_evs hev with h | h
          · exact h
          · rw [h] at hk
            cases hk
        · rw [List.mem_singleton.mp hev] at hk
          cases hk
      · rw [evs] at hev
        rcases List.mem_append.mp hev with hev | hev
        · rcases handleFields_kind hev with h | h
          all_goals
            rw [h]
            decide
        · rw [List.mem_singleton.mp hev]
          simp [Event.kind]
  | toggled on o act executor manager pending flash persist evs =>
      refine .of_silent (by rw [manager]; exact ⟨rfl, rfl, rfl, rfl, .inl rfl⟩)
        (by rw [arrived, act]) fun ev hev => ?_
      rw [nvs_kind (EmergencyStore.setPersistEnabled_isNvs (evs ▸ hev))]
      decide
  | handled t info wait o act result emergency executor manager pending flash persist evs stage
      time =>
      obtain ⟨s, d, hc, -⟩ := confirm_cases P o m.pre.executor.header m.pre.manager m.pre.flash
      have hleave := leaveRun_case c.emergency t { m.pre.manager with store := s, delivered := d }
      have hpost : m.post.manager =
          leaveRun c.emergency t { m.pre.manager with store := s, delivered := d } := by
        rw [manager, handleResult, hc]
      rw [← hpost] at hleave
      refine .result t s d (hw.owner.mpr ⟨by rw [result]; decide, emergency⟩) hleave ?_
        (fun ev hev => ?_) time (by rw [arrived, act])
      · rw [evs, manager]
        exact List.mem_append_right _ (List.mem_singleton.mpr rfl)
      · rw [evs] at hev
        rcases handleResult_kind hev with h | h
        all_goals
          rw [h]
          decide
  | finished info wait o act result emergency executor manager pending flash evs =>
      refine .of_silent (by rw [manager]; exact .refl _) (by rw [arrived, act]) fun ev hev => ?_
      rw [finished_kind (evs ▸ hev)]
      decide
  | handed t key lines free queued next executor manager pending flash evs stage time unheard =>
      -- handing a set over is an event of the cycle, but no result
      have hk : ∀ ev ∈ m.evs, ev.kind ≠ .wall ∧ ∀ key next, ev ≠ .resultHandled key next :=
        fun ev hev => by
          rw [evs] at hev
          rcases List.mem_cons.mp hev with rfl | hev
          · simp [Event.kind]
          · have hb := (start_kind hev).1
            refine ⟨by rw [hb]; decide, fun key next heq => ?_⟩
            rw [heq] at hb
            cases hb
      refine .still (by rw [manager]; exact ⟨rfl, rfl, rfl, rfl, .inr ⟨queued, rfl⟩⟩)
        (fun ev hev => (hk ev hev).1) (fun hr => ?_) unheard
      obtain ⟨key, next, hev⟩ := hr
      exact (hk _ hev).2 key next rfl
  | strayed free queued next =>
      obtain ⟨entry, he⟩ := hw.nextEntry queued
      rw [next] at he
      cases he
  | started t header free queued waiting executor manager pending flash evs stage time unheard =>
      refine .of_silent (by rw [manager]; exact .refl _) unheard fun ev hev => ?_
      rw [evs] at hev
      rcases List.mem_cons.mp hev with rfl | hev
      · simp [Event.kind]
      · rw [(start_kind hev).1]
        decide
  | executed rx wait₁ wait₂ wait₃ t₁ t₂ t₃ act executor manager pending flash evs =>
      refine .of_silent (by rw [manager]; exact .refl _) (by rw [arrived, act]) fun ev hev => ?_
      rw [loop_kind (evs ▸ hev)]
      decide
  | checked wait₁ wait₂ t wall lastCheck act due executor check =>
      refine .checked wait₁ wait₂ t wall lastCheck act check
        (not_handlesResult_of_kind fun ev hev => ?_)
      rw [check_kind check hev]
      decide

/-! ## The clock of a run -/

def readings (c : Config) (es : List Moment) : List ESPTime := es.filterMap (reading c)

/-- Once the clock is synced it stays so, and never goes back. -/
def Clock (c : Config) (es : List Moment) : Prop :=
  (readings c es).Pairwise fun r r' =>
    r.valid = true → r'.valid = true ∧ r.timestamp ≤ r'.timestamp

instance (c : Config) (es : List Moment) : Decidable (Clock c es) :=
  inferInstanceAs (Decidable (List.Pairwise _ _))

theorem readings_append (es fs : List Moment) :
    readings c (es ++ fs) = readings c es ++ readings c fs := List.filterMap_append

theorem mem_readings_snoc {r : ESPTime} :
    r ∈ readings c (es ++ [m]) ↔ r ∈ readings c es ∨ reading c m = some r := by
  rw [readings_append, List.mem_append]
  simp [readings]

theorem Clock.left {fs : List Moment} (h : Clock c (es ++ fs)) : Clock c es := by
  rw [Clock, readings_append, List.pairwise_append] at h
  exact h.1

/-- A later reading, after one that was valid. -/
theorem Clock.later {fs : List Moment} {r r' : ESPTime} (h : Clock c (es ++ fs))
    (hr : r ∈ readings c es) (hr' : r' ∈ readings c fs) (hv : r.valid = true) :
    r'.valid = true ∧ r.timestamp ≤ r'.timestamp := by
  rw [Clock, readings_append, List.pairwise_append] at h
  exact h.2.2 r hr r' hr' hv

theorem Clock.next {r r' : ESPTime} (h : Clock c (es ++ [m])) (hr : r ∈ readings c es)
    (hr' : reading c m = some r') (hv : r.valid = true) :
    r'.valid = true ∧ r.timestamp ≤ r'.timestamp :=
  h.later hr (by simp [readings, hr']) hv

/-! ## Marks -/

/-- The step dates an InvSetup `ts`. -/
def Dates (P : Platform) (c : Config) (ts : Nat) (m : Moment) : Prop :=
  (∃ r, Notes P c r m ∧ r.valid = true ∧ r.timestamp = ts) ∨ Event.stamped ts ∈ m.evs

/-- The step handled an InvSetup before the clock was synced. -/
def Undated (P : Platform) (c : Config) (m : Moment) : Prop := ∃ r, Notes P c r m ∧ r.valid = false

/-- The step queued a cycle. -/
def Queues (m : Moment) : Prop := ∃ cause r, Event.queued cause r ∈ m.evs

theorem not_dates_of_silent (unheard : arrived P m = none) (h : ∀ ev ∈ m.evs, ev.kind ≠ .wall)
    (ts : Nat) : ¬ Dates P c ts m := by
  rintro (⟨r, hn, -⟩ | hs)
  · exact not_notes_of_unheard unheard r hn
  · exact h _ hs rfl

/-! ## What the manager knows -/

/-- A reading that a hand of the clock stood at, in an hour after every mark. -/
def PastMarks (P : Platform) (c : Config) (es : List Moment) : Prop :=
  ∃ r ∈ readings c es, r.valid = true ∧
    ∀ n ∈ es, ∀ ts, Dates P c ts n → hourOf ts < hourOf r.timestamp

structure Watch (P : Platform) (c : Config) (es : List Moment) (g : EmergencyManager) : Prop where
  /-- A mark is the reading of some step. -/
  read : ∀ n ∈ es, ∀ ts, Dates P c ts n → ∃ r ∈ readings c es, r.valid = true ∧ r.timestamp = ts
  record : g.lastInvSetupTs ≠ 0 → ∀ n ∈ es, ∀ ts, Dates P c ts n → ts ≤ g.lastInvSetupTs
  retry : g.state = .backoff ∨ ((g.state = .queued ∨ g.state = .executing) ∧ g.cloudBack = false) →
    PastMarks P c es
  synced : g.state ≠ .empty → g.state ≠ .armed → ∃ r ∈ readings c es, r.valid = true
  waiting : g.invSetupAwaitingTime = true ∨ g.bootLoadedAwaitingTime = true →
    g.state = .empty ∨ g.state = .armed

/-- A step without a mark takes the account of the past over. -/
theorem PastMarks.snoc (h : PastMarks P c es) (hno : ∀ ts, ¬ Dates P c ts m) :
    PastMarks P c (es ++ [m]) := by
  obtain ⟨r, hr, hv, hall⟩ := h
  refine ⟨r, mem_readings_snoc.mpr (.inl hr), hv, fun n hn ts hd => ?_⟩
  rcases List.mem_append.mp hn with hn | hn
  · exact hall n hn ts hd
  · rw [List.mem_singleton.mp hn] at hd
    exact absurd hd (hno ts)

section
variable {header : GbbHeader} {isEmpty : Bool} {st : EmergencyState}

theorem stateAfter_calm (h : st = .empty ∨ st = .armed) :
    stateAfter header isEmpty st = .empty ∨ stateAfter header isEmpty st = .armed := by
  simp only [stateAfter]
  rcases h with rfl | rfl <;> cases header.hasLinesOnNoInvSetup <;> cases isEmpty <;> simp

/-- An InvSetup cancels a retry. -/
theorem stateAfter_backoff (h : stateAfter header isEmpty st = .backoff) :
    st = .backoff ∧ header.invSetup = false := by
  simp only [stateAfter] at h
  revert h
  cases st <;> cases header.hasLinesOnNoInvSetup <;> cases isEmpty <;>
    cases header.invSetup <;> simp

end

/-- What a step without a mark has to keep. -/
theorem Watch.carry {g g' : EmergencyManager} (h : Watch P c es g) (hno : ∀ ts, ¬ Dates P c ts m)
    (hlast : g'.lastInvSetupTs = g.lastInvSetupTs ∨ g'.lastInvSetupTs = 0)
    (hretry : g'.state = .backoff ∨
        ((g'.state = .queued ∨ g'.state = .executing) ∧ g'.cloudBack = false) →
      g.state = .backoff ∨ ((g.state = .queued ∨ g.state = .executing) ∧ g.cloudBack = false))
    (hcalm : g.state = .empty ∨ g.state = .armed → g'.state = .empty ∨ g'.state = .armed)
    (hwaiting : g'.invSetupAwaitingTime = true ∨ g'.bootLoadedAwaitingTime = true →
      g.invSetupAwaitingTime = true ∨ g.bootLoadedAwaitingTime = true) :
    Watch P c (es ++ [m]) g' := by
  have hold : ∀ n ∈ es ++ [m], ∀ ts, Dates P c ts n → n ∈ es := fun n hn ts hd => by
    rcases List.mem_append.mp hn with hn | hn
    · exact hn
    · rw [List.mem_singleton.mp hn] at hd
      exact absurd hd (hno ts)
  refine ⟨fun n hn ts hd => ?_, fun hne n hn ts hd => ?_, fun hr => ?_, fun he ha => ?_,
    fun hw => hcalm (h.waiting (hwaiting hw))⟩
  · obtain ⟨r, hr, hrest⟩ := h.read n (hold n hn ts hd) ts hd
    exact ⟨r, mem_readings_snoc.mpr (.inl hr), hrest⟩
  · rcases hlast with hl | hl
    · rw [hl] at hne ⊢
      exact h.record hne n (hold n hn ts hd) ts hd
    · exact absurd hl hne
  · exact (h.retry (hretry hr)).snoc hno
  · obtain ⟨r, hr, hv⟩ := h.synced (fun hs => (hcalm (.inl hs)).elim he ha)
      (fun hs => (hcalm (.inr hs)).elim he ha)
    exact ⟨r, mem_readings_snoc.mpr (.inl hr), hv⟩

/-- A new mark is the latest, for the clock does not go back. -/
theorem Watch.mark_le {g : EmergencyManager} {r : ESPTime} (h : Watch P c es g)
    (hclock : Clock c (es ++ [m])) (hr : reading c m = some r)
    (honly : ∀ ts, Dates P c ts m → ts = r.timestamp) :
    ∀ n ∈ es ++ [m], ∀ ts, Dates P c ts n → ts ≤ r.timestamp := by
  intro n hn ts hd
  rcases List.mem_append.mp hn with hn | hn
  · obtain ⟨r₀, hr₀, hv₀, rfl⟩ := h.read n hn ts hd
    exact (hclock.next hr₀ hr hv₀).2
  · rw [List.mem_singleton.mp hn] at hd
    exact Nat.le_of_eq (honly ts hd)

/-- A step that dates its own reading and leaves no cycle to retry. -/
theorem Watch.mark {g g' : EmergencyManager} {r : ESPTime} (h : Watch P c es g)
    (hclock : Clock c (es ++ [m])) (hr : reading c m = some r) (hv : r.valid = true)
    (honly : ∀ ts, Dates P c ts m → ts = r.timestamp)
    (hlast : g'.lastInvSetupTs = r.timestamp)
    (hretry : g'.state ≠ .backoff ∧
      (g'.state = .queued ∨ g'.state = .executing → g'.cloudBack = true))
    (hwaiting : g'.invSetupAwaitingTime = false ∧ g'.bootLoadedAwaitingTime = false) :
    Watch P c (es ++ [m]) g' := by
  refine ⟨fun n hn ts hd => ?_, fun _ => ?_, fun hb => ?_, fun _ _ => ?_, fun hw => ?_⟩
  · rcases List.mem_append.mp hn with hn | hn
    · obtain ⟨r₀, hr₀, hrest⟩ := h.read n hn ts hd
      exact ⟨r₀, mem_readings_snoc.mpr (.inl hr₀), hrest⟩
    · rw [List.mem_singleton.mp hn] at hd
      exact ⟨r, mem_readings_snoc.mpr (.inr hr), hv, (honly ts hd).symm⟩
  · rw [hlast]
    exact h.mark_le hclock hr honly
  · rcases hb with hb | ⟨hq, hb⟩
    · exact absurd hb hretry.1
    · rw [hretry.2 hq] at hb
      cases hb
  · exact ⟨r, mem_readings_snoc.mpr (.inr hr), hv⟩
  · rw [hwaiting.1, hwaiting.2] at hw
    rcases hw with hw | hw <;> cases hw

theorem hourOf_lt {ts top : Nat} (h : ts < top - top % 3600) : hourOf ts < hourOf top := by
  rw [hourOf, hourOf]
  omega

/-- What a message adds to the marks. -/
theorem Watch.handled {wall : ESPTime} {header : GbbHeader} {g g' : EmergencyManager}
    (h : Watch P c es g) (hclock : Clock c (es ++ [m]))
    (hr : reading c m = some (c.emergency.read wall))
    (hf : Handled c.emergency wall header g g')
    (hnotes : ∀ r, Notes P c r m → header.invSetup = true ∧ c.emergency.read wall = r)
    (honly : ∀ ev ∈ m.evs, ev.kind = .wall →
      header.invSetup = true ∧ ev = .invSetup (c.emergency.read wall)) :
    Watch P c (es ++ [m]) g' := by
  have hdates : ∀ ts, Dates P c ts m → header.invSetup = true ∧
      (c.emergency.read wall).valid = true ∧ ts = (c.emergency.read wall).timestamp := by
    rintro ts (⟨r, hn, hv, rfl⟩ | hs)
    · obtain ⟨hi, rfl⟩ := hnotes r hn
      exact ⟨hi, hv, rfl⟩
    · cases (honly _ hs rfl).2
  have hexec : g'.state = .queued ∨ g'.state = .executing →
      g.state = .queued ∨ g.state = .executing := by
    rw [hf.state, stateAfter_executing]
    exact fun hs => hs.imp (stateAfter_queued _ _ _) id
  have hcalm : g.state = .empty ∨ g.state = .armed → g'.state = .empty ∨ g'.state = .armed :=
    fun hs => hf.state ▸ stateAfter_calm hs
  by_cases hi : header.invSetup = true
  · have hretry : g'.state ≠ .backoff ∧
        (g'.state = .queued ∨ g'.state = .executing → g'.cloudBack = true) := by
      refine ⟨fun hb => ?_, fun hs => ?_⟩
      · rw [hf.state] at hb
        rw [(stateAfter_backoff hb).2] at hi
        cases hi
      · rw [hf.cloudBack, hi, decide_eq_true (hexec hs)]
        simp
    have hboot : g'.bootLoadedAwaitingTime = false := by rw [hf.bootLoadedAwaitingTime, hi]; rfl
    by_cases hv : (c.emergency.read wall).valid = true
    · refine h.mark hclock hr hv (fun ts hd => (hdates ts hd).2.2) ?_ hretry ⟨?_, hboot⟩
      · rw [hf.lastInvSetupTs, if_pos ⟨hi, hv⟩]
      · rw [hf.invSetupAwaitingTime, if_pos hi, hv]
        rfl
    · -- an unsynced clock has never been synced, and no cycle has begun
      have hsynced : g.state = .empty ∨ g.state = .armed := by
        by_contra hs
        rw [not_or] at hs
        obtain ⟨r, hr₀, hv₀⟩ := h.synced hs.1 hs.2
        exact hv (hclock.next hr₀ hr hv₀).1
      have hcarry : Watch P c (es ++ [m]) { g' with invSetupAwaitingTime := false } := by
        refine h.carry (fun ts hd => hv (hdates ts hd).2.1) (.inl ?_) (fun hb => ?_) hcalm ?_
        · exact hf.lastInvSetupTs.trans (if_neg fun h => hv h.2)
        · rcases hb with hb | ⟨hq, hb⟩
          · exact absurd hb hretry.1
          · rw [show g'.cloudBack = true from hretry.2 hq] at hb
            cases hb
        · rw [hboot]
          simp
      exact ⟨hcarry.read, hcarry.record, hcarry.retry, hcarry.synced, fun _ => hcalm hsynced⟩
  · refine h.carry (fun ts hd => hi (hdates ts hd).1) (.inl ?_) (fun hb => ?_) hcalm (fun hw => ?_)
    · rw [hf.lastInvSetupTs, if_neg fun h => hi h.1]
    · rw [Bool.not_eq_true] at hi
      rw [hf.cloudBack, hi, Bool.false_and, Bool.or_false] at hb
      rcases hb with hb | ⟨hq, hb⟩
      · rw [hf.state] at hb
        exact .inl (stateAfter_backoff hb).1
      · exact .inr ⟨hexec hq, hb⟩
    · rw [Bool.not_eq_true] at hi
      rw [hf.invSetupAwaitingTime, hf.bootLoadedAwaitingTime, hi] at hw
      simpa using hw

/-- What a check does to the marks: nothing, unless it dates an InvSetup. -/
theorem Watch.checked {t : Nat} {wall : ESPTime} {g : EmergencyManager}
    {r : EmergencyManager × List Event} (h : Watch P c es g) (hclock : Clock c (es ++ [m]))
    (hr : reading c m = some (c.emergency.read wall))
    (hc : CheckCase c.emergency t wall g r) (hevs : m.evs = r.2) (unheard : arrived P m = none) :
    Watch P c (es ++ [m]) r.1 := by
  have hsilent : (∀ ts, Event.stamped ts ∉ r.2) → ∀ ts, ¬ Dates P c ts m := by
    rintro hs ts (⟨s, hn, -⟩ | hd)
    · exact not_notes_of_unheard unheard s hn
    · exact hs ts (hevs ▸ hd)
  cases hc with
  | still => exact h.carry (hsilent nofun) (.inl rfl) id id id
  | emptied ha =>
      exact h.carry (hsilent nofun) (.inl rfl) (by simp) (fun _ => .inl rfl) id
  | stamped ha he hv =>
      refine h.mark hclock hr hv (fun ts hd => ?_) rfl ?_ ⟨rfl, rfl⟩
      · rcases hd with ⟨s, hn, -⟩ | hd
        · exact absurd hn (not_notes_of_unheard unheard s)
        · rw [hevs] at hd
          simpa using hd
      · simp [ha]
  | hourly ha he hv hflags hover =>
      have hno := hsilent (by simp)
      simp only [overdue, Bool.and_eq_true, decide_eq_true_eq, bne_iff_ne] at hover
      simp only [Bool.or_eq_false_iff] at hflags
      have hlate : PastMarks P c (es ++ [m]) := by
        refine ⟨_, mem_readings_snoc.mpr (.inr hr), hv, fun n hn ts hd => ?_⟩
        rcases List.mem_append.mp hn with hn | hn
        · have := h.record hover.1.2 n hn ts hd
          exact hourOf_lt (by omega)
        · rw [List.mem_singleton.mp hn] at hd
          exact absurd hd (hno ts)
      have hcarry : Watch P c (es ++ [m])
          { g with retryDelayMs := c.emergency.retryInitialMs, walkFromStart := true } :=
        h.carry hno (.inl rfl) id id id
      refine ⟨hcarry.read, hcarry.record, fun _ => hlate,
        fun _ _ => ⟨_, mem_readings_snoc.mpr (.inr hr), hv⟩, fun hw => ?_⟩
      rw [show g.invSetupAwaitingTime = false from hflags.1,
        show g.bootLoadedAwaitingTime = false from hflags.2] at hw
      rcases hw with hw | hw <;> cases hw
  | retry hb =>
      have hno := hsilent (by simp)
      refine h.carry hno (.inl rfl) (fun _ => .inl hb) ?_ id
      rw [hb]
      simp

theorem Watch.step (h : Watch P c es m.pre.manager) (hm : AlarmCase P c m)
    (hclock : Clock c (es ++ [m])) : Watch P c (es ++ [m]) m.post.manager := by
  cases hm with
  | still same silent noResult unheard =>
      refine h.carry (not_dates_of_silent unheard silent) (.inl same.lastInvSetupTs) (fun hb => ?_)
        (fun hs => ?_) (fun hw => ?_)
      · rw [same.cloudBack] at hb
        rcases same.state with hs | ⟨hq, hx⟩
        · rwa [hs] at hb
        · rw [hx] at hb
          rcases hb with hb | ⟨-, hb⟩
          · cases hb
          · exact .inr ⟨.inl hq, hb⟩
      · rcases same.state with hs' | ⟨hq, -⟩
        · rwa [hs']
        · rw [hq] at hs
          simp at hs
      · rwa [same.invSetupAwaitingTime, same.bootLoadedAwaitingTime] at hw
  | message payload wall o header act parsed handled only =>
      exact h.handled hclock (by rw [reading, act]) handled
        (fun _ => (notes_message_iff act parsed).mp) only
  | checked wait₁ wait₂ t wall lastCheck act check =>
      have hw : Watch P c es { m.pre.manager with lastCheck := lastCheck } :=
        ⟨h.read, h.record, h.retry, h.synced, h.waiting⟩
      exact hw.checked hclock (by rw [reading, act]) check rfl (unheard_check act)
  | result t s d executing leave event silent time unheard =>
      have hno := not_dates_of_silent (c := c) unheard silent
      have hbusy : ¬ (m.pre.manager.state = .empty ∨ m.pre.manager.state = .armed) := by
        rw [executing]
        simp
      generalize m.post.manager = g' at leave
      cases leave with
      | next =>
          refine h.carry hno (.inl rfl) (fun hb => .inr ⟨.inr executing, ?_⟩)
            (fun hs => absurd hs hbusy) id
          simpa using hb
      | delivered =>
          exact h.carry hno (.inr rfl) (by simp) (fun hs => absurd hs hbusy) id
      | cloudBack =>
          exact h.carry hno (.inl rfl) (by simp) (fun hs => absurd hs hbusy) id
      | backoff delay _ _ hback =>
          exact h.carry hno (.inl rfl) (fun _ => .inr ⟨.inr executing, hback⟩)
            (fun hs => absurd hs hbusy) id

/-! ## What is still to be dated -/

/-- A step handles one message at most. -/
theorem AlarmCase.not_dates (hm : AlarmCase P c m) (h : Undated P c m) (ts : Nat) :
    ¬ Dates P c ts m := by
  obtain ⟨r, hn, hv⟩ := h
  rintro (⟨r', hn', hv', -⟩ | hs)
  · obtain rfl : r = r' := Option.some.inj (hn.symm.trans hn')
    rw [hv] at hv'
    cases hv'
  · cases hm with
    | still same silent => exact silent _ hs rfl
    | message payload wall o header act parsed handled only => cases (only _ hs rfl).2
    | checked wait₁ wait₂ t wall lastCheck act =>
        exact not_notes_of_unheard (unheard_check act) r hn
    | result t s d executing leave event silent => exact silent _ hs rfl

/-- The flags stand until something is dated; a message may swap one for the
other. -/
theorem AlarmCase.flags (hm : AlarmCase P c m) (hno : ∀ ts, ¬ Dates P c ts m) :
    (Undated P c m ∨ m.pre.manager.invSetupAwaitingTime = true →
      m.post.manager.invSetupAwaitingTime = true) ∧
    (m.pre.manager.bootLoadedAwaitingTime = true →
      m.post.manager.invSetupAwaitingTime = true ∨
        m.post.manager.bootLoadedAwaitingTime = true) := by
  cases hm with
  | still same silent noResult unheard =>
      rw [same.invSetupAwaitingTime, same.bootLoadedAwaitingTime]
      exact ⟨fun h => h.resolve_left fun ⟨r, hn, _⟩ => not_notes_of_unheard unheard r hn, .inr⟩
  | message payload wall o header act parsed handled only =>
      by_cases hi : header.invSetup = true
      · have hv : (c.emergency.read wall).valid = false := by
          by_contra hv
          rw [Bool.not_eq_false] at hv
          exact hno _ (.inl ⟨_, (notes_message_iff act parsed).mpr ⟨hi, rfl⟩, hv, rfl⟩)
        have hawait : m.post.manager.invSetupAwaitingTime = true := by
          rw [handled.invSetupAwaitingTime, if_pos hi, hv]
          rfl
        exact ⟨fun _ => hawait, fun _ => .inl hawait⟩
      · rw [handled.invSetupAwaitingTime, handled.bootLoadedAwaitingTime, if_neg hi]
        refine ⟨fun h => h.resolve_left fun ⟨r, hn, _⟩ =>
          hi ((notes_message_iff act parsed).mp hn).1, fun h => .inr ?_⟩
        rw [Bool.not_eq_true] at hi
        rw [hi, h]
        rfl
  | checked wait₁ wait₂ t wall lastCheck act check =>
      have hun : ¬ Undated P c m := fun ⟨r, hn, _⟩ =>
        not_notes_of_unheard (unheard_check act) r hn
      generalize hevs : m.evs = evs at check
      generalize m.post.manager = g' at check ⊢
      cases check with
      | stamped => exact absurd (.inr (by rw [hevs]; exact List.mem_singleton.mpr rfl)) (hno _)
      | _ => exact ⟨fun h => h.resolve_left hun, .inr⟩
  | result t s d executing leave event silent time unheard =>
      have hun : ¬ Undated P c m := fun ⟨r, hn, _⟩ => not_notes_of_unheard unheard r hn
      generalize m.post.manager = g' at leave ⊢
      cases leave <;> exact ⟨fun h => h.resolve_left hun, .inr⟩

/-- Boot leaves the manager at rest, and waiting for the clock exactly when it
restored sets. -/
theorem setup_alarm (P : Platform) (b : BootInput) :
    ((setup P b).1.manager.state = .empty ∨ (setup P b).1.manager.state = .armed) ∧
      (setup P b).1.manager.bootLoadedAwaitingTime = !(setup P b).1.sets.isEmpty ∧
      (setup P b).1.manager.cloudBack = false := by
  have hstate := setup_state P b.nvsSync b.nvsLoad b.persistSwitch b.flash
  have hflags : ∀ m : EmergencyManager,
      m = (({} : EmergencyManager).setup P b.nvsSync b.nvsLoad b.persistSwitch b.flash).1 →
      m.bootLoadedAwaitingTime = decide (m.state = .armed) ∧ m.cloudBack = false := by
    rintro m rfl
    unfold EmergencyManager.setup
    split
    · exact ⟨rfl, rfl⟩
    · exact ⟨rfl, rfl⟩
    · dsimp only
      split <;> exact ⟨rfl, rfl⟩
  generalize hm : (({} : EmergencyManager).setup P b.nvsSync b.nvsLoad b.persistSwitch b.flash).1
    = m at hstate hflags
  have hmanager : (Gbb.setup P b).1.manager = m := hm
  obtain ⟨hboot, hback⟩ := hflags m rfl
  show _ ∧ _ = !(Gbb.setup P b).1.manager.store.sets.isEmpty ∧ _
  rw [hmanager, hboot, hstate, hback]
  cases m.store.sets.isEmpty <;> simp

/-- A run in terms of the alarm. -/
theorem Runs.alarm {b : BootInput} (h : Runs P c (setup P b).1 es w) :
    Run (AlarmCase P c) (setup P b).1 es w :=
  h.guarded.mono fun _ hm => hm.1.alarm hm.2.1

theorem Runs.watch {b : BootInput} (h : Runs P c (setup P b).1 es w) (hclock : Clock c es) :
    Watch P c es w.manager := by
  have hcalm := (setup_alarm P b).1
  have hrun := h.alarm
  generalize (setup P b).1 = w₀ at hcalm hrun
  refine hrun.history (H := fun es w => Clock c es → Watch P c es w.manager) (fun _ => ?_)
    (fun es m _ ih hm hclock => (ih hclock.left).step hm hclock) hclock
  refine ⟨fun n hn => absurd hn List.not_mem_nil, fun _ n hn => absurd hn List.not_mem_nil,
    fun hb => ?_, fun he ha => (hcalm.elim he ha).elim, fun _ => hcalm⟩
  rcases hcalm with hs | hs <;> rw [hs] at hb <;> simp at hb

/-- What has not been dated waits. -/
theorem Runs.waiting {b : BootInput} (h : Runs P c (setup P b).1 es w) :
    (Since (Undated P c) (fun n => ∀ ts, ¬ Dates P c ts n) es →
      w.manager.invSetupAwaitingTime = true) ∧
    ((setup P b).1.sets.isEmpty = false → (∀ n ∈ es, ∀ ts, ¬ Dates P c ts n) →
      w.manager.invSetupAwaitingTime = true ∨ w.manager.bootLoadedAwaitingTime = true) := by
  refine ⟨fun hs => ?_, fun he hno => ?_⟩
  · refine h.alarm.since (A := fun w => w.manager.invSetupAwaitingTime = true) hs
      (fun m hm hu => ?_) fun m hm hno hw => ?_
    · exact (hm.flags (hm.not_dates hu)).1 (.inl hu)
    · exact (hm.flags hno).1 (.inr hw)
  · refine h.alarm.unless (I := fun w => w.manager.invSetupAwaitingTime = true ∨
      w.manager.bootLoadedAwaitingTime = true) hno (.inr ?_) fun m hm hno hw => ?_
    · rw [(setup_alarm P b).2.1, he]
      rfl
    · exact hw.elim (fun hw => .inl ((hm.flags hno).1 (.inr hw))) (hm.flags hno).2

/-! ## No false alarm -/

/-- No cycle is queued in the hour of a mark, nor before an InvSetup of unknown
time or a restored store has been dated. -/
theorem no_false_alarm {b : BootInput} (h : Runs P c (setup P b).1 es w) (hclock : Clock c es) :
    ∀ before m after, es = before ++ m :: after → ∀ cause r, Event.queued cause r ∈ m.evs →
      (∀ n ∈ before, ∀ ts, Dates P c ts n → r.valid = true ∧ hourOf ts < hourOf r.timestamp) ∧
      ¬ Since (Undated P c) (fun n => ∀ ts, ¬ Dates P c ts n) before ∧
      ((setup P b).1.sets.isEmpty = false → ∃ n ∈ before, ∃ ts, Dates P c ts n) := by
  rintro before m after rfl cause r hev
  obtain ⟨hpre, hm, -⟩ := h.at
  have hclock' : Clock c (before ++ [m]) := by
    rw [List.append_cons] at hclock
    exact hclock.left
  have hwatch := Runs.watch hpre hclock'.left
  obtain ⟨hundated, hrestored⟩ := Runs.waiting hpre
  obtain ⟨hcalm, htimes⟩ : ¬ (m.pre.manager.invSetupAwaitingTime = true ∨
        m.pre.manager.bootLoadedAwaitingTime = true) ∧
      ∀ n ∈ before, ∀ ts, Dates P c ts n → r.valid = true ∧ hourOf ts < hourOf r.timestamp := by
    obtain ⟨-, hm', -⟩ := h.alarm.at
    cases hm' with
    | still same silent => exact absurd rfl (silent _ hev)
    | message payload wall o header act parsed handled only => cases (only _ hev rfl).2
    | result t s d executing leave event silent => exact absurd rfl (silent _ hev)
    | checked wait₁ wait₂ t wall lastCheck act check =>
        have hr : reading c m = some (c.emergency.read wall) := by rw [reading, act]
        generalize m.post.manager = g', m.evs = evs at check hev
        cases check with
        | still => cases hev
        | emptied => cases hev
        | stamped => simp at hev
        | hourly _ _ hv hflags hover =>
            obtain ⟨-, rfl⟩ := Event.queued.inj (List.mem_singleton.mp hev)
            simp only [overdue, Bool.and_eq_true, decide_eq_true_eq, bne_iff_ne] at hover
            refine ⟨fun hw => ?_, fun n hn ts hd => ⟨hv, hourOf_lt ?_⟩⟩
            · rw [← Bool.or_eq_true] at hw
              rw [hw] at hflags
              cases hflags
            · exact Nat.lt_of_le_of_lt (hwatch.record hover.1.2 n hn ts hd) hover.2
        | retry hb =>
            obtain ⟨-, rfl⟩ := Event.queued.inj (List.mem_singleton.mp hev)
            obtain ⟨r₀, hr₀, hv₀, hpast⟩ := hwatch.retry (.inl hb)
            obtain ⟨hv, hle⟩ := hclock'.next hr₀ hr hv₀
            refine ⟨fun hw => ?_, fun n hn ts hd => ⟨hv, Nat.lt_of_lt_of_le (hpast n hn ts hd) ?_⟩⟩
            · have hs := hwatch.waiting hw
              rw [hb] at hs
              simp at hs
            · exact Nat.div_le_div_right hle
  refine ⟨htimes, fun hs => hcalm (.inl (hundated hs)), fun he => ?_⟩
  by_contra hno
  simp only [not_exists, not_and] at hno
  exact hcalm (hrestored he fun n hn ts hd => hno n hn ts hd)

/-- The night's cycle is queued at twenty past two, the InvSetup is of midnight. -/
theorem no_false_alarm_night :
    ∃ h : 7 < nightRun.length, Event.queued .hourly (clockAt 2 20) ∈ nightRun[7].evs ∧
      ∀ n ∈ nightRun.take 7, ∀ ts, Dates nightDevice {} ts n →
        hourOf ts < hourOf (clockAt 2 20).timestamp := by
  have hlen : 7 < nightRun.length := by decide +kernel
  have hev : Event.queued .hourly (clockAt 2 20) ∈ nightRun[7].evs := by decide +kernel +revert
  have hclock : Clock {} nightRun := by decide +kernel
  have hrun : Runs nightDevice {} (setup nightDevice unplugged).1 nightRun _ := performAll_runs rfl
  obtain ⟨hmarks, -⟩ := no_false_alarm hrun hclock _ _ _ (pick_one nightRun 7 hlen) _ _ hev
  exact ⟨hlen, hev, fun n hn ts hd => (hmarks n hn ts hd).2⟩

/-! ## The alarm that is due -/

/-- The step handles a result that leaves no set stored. -/
def Exhausts (m : Moment) : Prop := HandlesResult m ∧ m.post.sets.isEmpty = true

instance (m : Moment) : Decidable (Exhausts m) := inferInstanceAs (Decidable (_ ∧ _))

/-- What is left of an InvSetup of `ts` after the moves `es`. -/
structure Recorded (ts : Nat) (es : List Moment) (g : EmergencyManager) : Prop where
  invSetupAwaitingTime : g.invSetupAwaitingTime = false
  bootLoadedAwaitingTime : g.bootLoadedAwaitingTime = false
  kept : (∀ n ∈ es, ¬ Exhausts n) → g.lastInvSetupTs = ts
  lost : (∃ n ∈ es, Exhausts n) → g.lastInvSetupTs = 0

theorem Recorded.snoc {ts : Nat} {g g' : EmergencyManager} (h : Recorded ts es g)
    (ha : g'.invSetupAwaitingTime = false) (hb : g'.bootLoadedAwaitingTime = false)
    (hkept : ¬ Exhausts m → g'.lastInvSetupTs = g.lastInvSetupTs)
    (hlost : Exhausts m → g'.lastInvSetupTs = 0) : Recorded ts (es ++ [m]) g' := by
  refine ⟨ha, hb, fun hno => ?_, fun ⟨n, hn, hx⟩ => ?_⟩
  · rw [hkept (hno m (by simp))]
    exact h.kept fun n hn => hno n (by simp [hn])
  · by_cases hm : Exhausts m
    · exact hlost hm
    · rw [hkept hm]
      rcases List.mem_append.mp hn with hn | hn
      · exact h.lost ⟨n, hn, hx⟩
      · rw [List.mem_singleton.mp hn] at hx
        exact absurd hx hm

/-- Without a later InvSetup only the end of a cycle takes it away. -/
theorem Recorded.step {ts : Nat} (h : Recorded ts es m.pre.manager) (hm : AlarmCase P c m)
    (hno : ∀ r, ¬ Notes P c r m) : Recorded ts (es ++ [m]) m.post.manager := by
  cases hm with
  | still same silent noResult =>
      exact h.snoc (by rw [same.invSetupAwaitingTime, h.invSetupAwaitingTime])
        (by rw [same.bootLoadedAwaitingTime, h.bootLoadedAwaitingTime])
        (fun _ => same.lastInvSetupTs) fun hx => absurd hx.1 noResult
  | message payload wall o header act parsed handled only noResult =>
      have hi : ¬ header.invSetup = true := fun hi =>
        hno _ ((notes_message_iff act parsed).mpr ⟨hi, rfl⟩)
      refine h.snoc ?_ ?_ (fun _ => ?_) fun hx => absurd hx.1 noResult
      · rw [handled.invSetupAwaitingTime, if_neg hi, h.invSetupAwaitingTime]
      · rw [handled.bootLoadedAwaitingTime, h.bootLoadedAwaitingTime, Bool.and_false]
      · rw [handled.lastInvSetupTs, if_neg fun h => hi h.1]
  | checked wait₁ wait₂ t wall lastCheck act check noResult =>
      have hflags : (m.pre.manager.invSetupAwaitingTime ||
          m.pre.manager.bootLoadedAwaitingTime) = false := by
        rw [h.invSetupAwaitingTime, h.bootLoadedAwaitingTime]
        rfl
      generalize m.post.manager = g', m.evs = evs at check
      cases check with
      | stamped _ _ _ ha =>
          rw [show (m.pre.manager.invSetupAwaitingTime || m.pre.manager.bootLoadedAwaitingTime)
            = true from ha] at hflags
          cases hflags
      | _ =>
          exact h.snoc h.invSetupAwaitingTime h.bootLoadedAwaitingTime (fun _ => rfl)
            fun hx => absurd hx.1 noResult
  | result t s d executing leave event =>
      have hx : m.post.manager.store.sets.isEmpty = true → Exhausts m := fun he =>
        ⟨⟨_, _, event⟩, he⟩
      have hx' : Exhausts m → m.post.manager.store.sets.isEmpty = true := And.right
      generalize m.post.manager = g' at leave hx hx' ⊢
      cases leave with
      | delivered _ he =>
          exact h.snoc h.invSetupAwaitingTime h.bootLoadedAwaitingTime (fun hn => absurd (hx he) hn)
            fun _ => rfl
      | next hu =>
          refine h.snoc h.invSetupAwaitingTime h.bootLoadedAwaitingTime (fun _ => rfl) fun hn => ?_
          exact absurd (hx' hn) (by rw [isEmpty_of_upperBound? hu]; exact Bool.false_ne_true)
      | cloudBack _ he =>
          refine h.snoc h.invSetupAwaitingTime h.bootLoadedAwaitingTime (fun _ => rfl) fun hn => ?_
          exact absurd (hx' hn) (by rw [he]; exact Bool.false_ne_true)
      | backoff delay _ he =>
          refine h.snoc h.invSetupAwaitingTime h.bootLoadedAwaitingTime (fun _ => rfl) fun hn => ?_
          exact absurd (hx' hn) (by rw [he]; exact Bool.false_ne_true)

/-- A message that notes an InvSetup read the clock. -/
theorem AlarmCase.notes_read (hm : AlarmCase P c m) {r : ESPTime} (hn : Notes P c r m) :
    reading c m = some r ∧ (r.valid = true → Recorded r.timestamp [] m.post.manager) := by
  cases hm with
  | still same silent noResult unheard => exact absurd hn (not_notes_of_unheard unheard r)
  | message payload wall o header act parsed handled only =>
      obtain ⟨hi, rfl⟩ := (notes_message_iff act parsed).mp hn
      refine ⟨by rw [reading, act], fun hv => ⟨?_, ?_, fun _ => ?_,
        fun ⟨n, hn, _⟩ => absurd hn List.not_mem_nil⟩⟩
      · rw [handled.invSetupAwaitingTime, if_pos hi, hv]
        rfl
      · rw [handled.bootLoadedAwaitingTime, hi]
        rfl
      · rw [handled.lastInvSetupTs, if_pos ⟨hi, hv⟩]
  | checked wait₁ wait₂ t wall lastCheck act =>
      exact absurd hn (not_notes_of_unheard (unheard_check act) r)
  | result t s d executing leave event silent time unheard =>
      exact absurd hn (not_notes_of_unheard unheard r)

/-- The step is a call of `check_trigger_` that finds sets to watch over and a
synced clock at `ts`, with nothing left to date. -/
structure Watches (c : Config) (ts : Nat) (m : Moment) : Prop where
  call : ∃ wait₁ wait₂ wall, m.act = .emergency wait₁ wait₂ wall ∧
    elapsed (millis (m.pre.now + wait₁)) m.pre.manager.lastCheck checkIntervalMs = true ∧
    (c.emergency.read wall).valid = true ∧ (c.emergency.read wall).timestamp = ts
  armed : m.pre.manager.state = .armed
  stored : m.pre.sets.isEmpty = false
  invSetupAwaitingTime : m.pre.manager.invSetupAwaitingTime = false
  bootLoadedAwaitingTime : m.pre.manager.bootLoadedAwaitingTime = false

/-- Such a call queues a cycle exactly when the alarm is overdue. -/
theorem Watches.queues_iff {ts : Nat} (h : Watches c ts m) (hm : Step P c m) :
    (∃ r, Event.queued .hourly r ∈ m.evs) ↔ overdue c.emergency ts m.pre.manager = true := by
  obtain ⟨wait₁, wait₂, wall, hact, hdue, hv, rfl⟩ := h.call
  have hevs : m.evs = (checkTrigger c.emergency (m.pre.now + wait₁ + wait₂) wall
      { m.pre.manager with lastCheck := millis (m.pre.now + wait₁) }).2 := by
    rw [show m.evs = (m.act.perform P c m.pre).2 from congrArg Prod.snd hm.2, hact]
    show (EmergencyManager.loop c.emergency _ _ wall m.pre.manager).2 = _
    rw [EmergencyManager.loop, if_pos hdue]
  have hover : overdue c.emergency (c.emergency.read wall).timestamp
      { m.pre.manager with lastCheck := millis (m.pre.now + wait₁) } =
      overdue c.emergency (c.emergency.read wall).timestamp m.pre.manager := rfl
  rw [hevs, checkTrigger_watching (by exact h.armed) (by exact h.stored) hv
    (by exact h.invSetupAwaitingTime) (by exact h.bootLoadedAwaitingTime), hover]
  cases overdue c.emergency (c.emergency.read wall).timestamp m.pre.manager <;> simp

/-- The hour's alarm goes off exactly when no cycle has ended by emptying the
store since the latest InvSetup. -/
theorem alarm_fires_iff {b : BootInput} (h : Runs P c (setup P b).1 es w) (hclock : Clock c es) :
    ∀ before note mid m after, es = before ++ note :: mid ++ m :: after →
      ∀ r₀ ts, Notes P c r₀ note → r₀.valid = true →
        (∀ n ∈ mid, ∀ r, Notes P c r n → r.valid = false) →
        Watches c ts m → r₀.timestamp < ts - ts % 3600 →
        c.emergency.minuteThreshold.toNat < ts % 3600 / 60 →
        ((∃ r, Event.queued .hourly r ∈ m.evs) ↔ ∀ n ∈ mid, ¬ Exhausts n) := by
  rintro before note mid m after rfl r₀ ts hnote hv hlatest hwatches htop hminute
  have hrun := h.alarm
  rw [List.append_assoc, List.cons_append] at hrun
  obtain ⟨-, hn, hrest⟩ := hrun.at
  obtain ⟨hmid, -, -⟩ := hrest.at
  obtain ⟨hreading, hrec⟩ := hn.notes_read hnote
  -- a later InvSetup would have been read off a synced clock
  have hnone : ∀ n ∈ mid, ∀ r, ¬ Notes P c r n := by
    intro n hn r hnotes
    obtain ⟨hread, -⟩ := (hmid.mem hn).notes_read hnotes
    have hlater : r.valid = true := by
      rw [show before ++ note :: mid ++ m :: after =
        (before ++ [note]) ++ (mid ++ m :: after) by simp]
        at hclock
      refine (hclock.later (mem_readings_snoc.mpr (.inr hreading)) ?_ hv).1
      exact List.mem_filterMap.mpr ⟨n, List.mem_append_left _ hn, hread⟩
    rw [hlatest n hn r hnotes] at hlater
    cases hlater
  have hrecorded : Recorded r₀.timestamp mid m.pre.manager := by
    refine hmid.history (H := fun fs w => (∀ n ∈ fs, ∀ r, ¬ Notes P c r n) →
      Recorded r₀.timestamp fs w.manager) (fun _ => hrec hv) (fun fs n _ ih hn hno => ?_) hnone
    exact (ih fun x hx => hno x (by simp [hx])).step hn (hno n (by simp))
  rw [hwatches.queues_iff h.at.2.1]
  have hpos := r₀.pos hv
  constructor
  · intro hover n hn hx
    simp only [overdue, hrecorded.lost ⟨n, hn, hx⟩] at hover
    simp at hover
  · intro hno
    simp [overdue, hrecorded.kept hno, hminute, htop, Nat.ne_of_gt hpos]

/-- The night's alarm: the latest InvSetup came with the second set. -/
theorem alarm_fires_iff_night :
    ∃ h : 1 + 1 + 5 < nightRun.length, ∃ r, Event.queued .hourly r ∈ nightRun[1 + 1 + 5].evs := by
  have hlen : 1 + 1 + 5 < nightRun.length := by decide +kernel
  have hclock : Clock {} nightRun := by decide +kernel
  have hnote : Notes nightDevice {} (clockAt 0 0) nightRun[1] := by
    clear hclock
    decide +kernel +revert
  have hsilent : ∀ n ∈ (nightRun.drop (1 + 1)).take 5, noted nightDevice {} n = none := by
    decide +kernel
  have hwatches : Watches {} (clockAt 2 20).timestamp nightRun[1 + 1 + 5] := by
    clear hclock hnote hsilent
    refine ⟨⟨0, 0, clockAt 2 20, rfl, ?_, rfl, rfl⟩, ?_, ?_, ?_, ?_⟩
    all_goals decide +kernel +revert
  have hrun : Runs nightDevice {} (setup nightDevice unplugged).1 nightRun _ := performAll_runs rfl
  refine ⟨hlen, (alarm_fires_iff hrun hclock _ _ _ _ _ (pick_two nightRun 1 5 hlen) _ _ hnote rfl
    (fun n hn r hr => ?_) hwatches (by decide +kernel) (by decide +kernel)).mpr (by decide +kernel)⟩
  cases (hsilent n hn).symm.trans hr

/-- An InvSetup alone, while the last set is on the bus; a new set half an hour
later. -/
def invSetupDoc : Json := .obj [("IsInvSetup", .int 1)]

def forgetfulDocs : List Json :=
  [keepDoc 1 "A" "01060001000259CB", invSetupDoc, keepDoc 0 "B" "0206000100039838"]

def forgetfulRun : List Moment × World :=
  performAll (bench forgetfulDocs) {}
    ([arrives (keepDoc 1 "A" "01060001000259CB") (clockAt 0 0)] ++
      callAfter 5000 [] (clockAt 2 20) ++ callAfter 1 [] (clockAt 2 20) ++
      [arrives invSetupDoc (clockAt 2 30)] ++
      callAfter 100 [0x01, 0x06, 0x00, 0x01, 0x00, 0x02, 0x59, 0xCB] (clockAt 2 30) ++
      callAfter 1 [] (clockAt 2 30) ++
      [arrives (keepDoc 0 "B" "0206000100039838") (clockAt 2 40)] ++
      callAfter 5000 [] (clockAt 3 20))
    (setup (bench forgetfulDocs) unplugged).1

/-- The InvSetup of half past two is gone at twenty past three. -/
theorem alarm_forgotten :
    Runs (bench forgetfulDocs) {} (setup (bench forgetfulDocs) unplugged).1 forgetfulRun.1
        forgetfulRun.2 ∧ Clock {} forgetfulRun.1 ∧
      ∃ h : 13 + 1 + 18 < forgetfulRun.1.length,
        Notes (bench forgetfulDocs) {} (clockAt 2 30) forgetfulRun.1[13] ∧
        (∀ n ∈ (forgetfulRun.1.drop 14).take 18, noted (bench forgetfulDocs) {} n = none) ∧
        Watches {} (clockAt 3 20).timestamp forgetfulRun.1[13 + 1 + 18] ∧
        (clockAt 2 30).timestamp < (clockAt 3 20).timestamp - (clockAt 3 20).timestamp % 3600 ∧
        ({} : EmergencyConfig).minuteThreshold.toNat < (clockAt 3 20).timestamp % 3600 / 60 ∧
        forgetfulRun.1[13 + 1 + 18].evs = [] := by
  have hlen : 13 + 1 + 18 < forgetfulRun.1.length := by decide +kernel
  refine ⟨performAll_runs rfl, by decide +kernel, hlen, ?_, by decide +kernel,
    ⟨⟨0, 0, clockAt 3 20, rfl, ?_, rfl, rfl⟩, ?_, ?_, ?_, ?_⟩, by decide +kernel,
    by decide +kernel, ?_⟩
  all_goals decide +kernel +revert

end Gbb
