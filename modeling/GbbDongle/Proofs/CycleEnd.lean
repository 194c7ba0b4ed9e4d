import GbbDongle.Proofs.Alarm

/-!
# How a send cycle ends

`cloud_back_` is what a cycle remembers of the cloud: an InvSetup that arrives
while it is queued or on the bus raises the flag, and the end of the cycle
reads it and takes it down. The account below says that the flag is up exactly
when the cycle that is under way has heard the cloud. One transition breaks it:
a message that clears the last stored set of a cycle still QUEUED abandons the
cycle and leaves the flag up, for the next cycle to find.
-/

namespace Gbb

open History Wrap EmergencyManager EmergencyStore

variable {P : Platform} {c : Config} {m : Moment} {es : List Moment} {w : World}

/-- The step handled a message with `IsInvSetup != 0`, whatever the clock. -/
def HearsCloud (P : Platform) (c : Config) (m : Moment) : Prop := ∃ r, Notes P c r m

/-- The step handles a message that clears the only set of a queued cycle which
has heard the cloud, or hears it now. -/
def Strands (P : Platform) (m : Moment) : Prop :=
  ∃ payload wall o header, m.act = .message payload wall o ∧
    acceptedHeader P payload = some header ∧
    m.pre.manager.state = .queued ∧ header.hasLinesOnNoInvSetup = true ∧
    header.linesOnNoInvSetup = [] ∧ (m.pre.sets.erase header.setKey).isEmpty = true ∧
    (header.invSetup = true ∨ m.pre.manager.cloudBack = true)

/-! ## The flag -/

/-- The flag is up exactly in a cycle that has heard the cloud. -/
def OfCycle (P : Platform) (c : Config) (es : List Moment) (g : EmergencyManager) : Prop :=
  g.cloudBack = true ↔ (g.state = .queued ∨ g.state = .executing) ∧
    Since (HearsCloud P c) (fun n => ¬ Queues n) es

section
variable {header : GbbHeader} {st : EmergencyState}

/-- A message ends a queued cycle only by emptying the store. -/
theorem stateAfter_of_queued (isEmpty : Bool) :
    stateAfter header isEmpty .queued =
      if header.hasLinesOnNoInvSetup = true ∧ isEmpty = true then .empty else .queued := by
  simp only [stateAfter]
  cases header.hasLinesOnNoInvSetup <;> cases isEmpty <;> simp

end

/-- Nothing of the cloud in a step, and the cycle neither opened nor closed. -/
theorem OfCycle.carry {g g' : EmergencyManager} (h : OfCycle P c es g)
    (hhears : ¬ HearsCloud P c m) (hqueues : ¬ Queues m) (hback : g'.cloudBack = g.cloudBack)
    (hstate : g'.state = .queued ∨ g'.state = .executing ↔
      g.state = .queued ∨ g.state = .executing) :
    OfCycle P c (es ++ [m]) g' := by
  rw [OfCycle, hback, hstate, since_snoc, or_iff_right hhears, and_iff_left hqueues]
  exact h

/-- A step that leaves no cycle under way and no flag up. -/
theorem OfCycle.over {g' : EmergencyManager} (hback : g'.cloudBack = false)
    (hstate : ¬ (g'.state = .queued ∨ g'.state = .executing)) : OfCycle P c es g' := by
  rw [OfCycle, hback]
  exact ⟨fun h => absurd h Bool.false_ne_true, fun h => absurd h.1 hstate⟩

/-- A step that opens a cycle. -/
theorem OfCycle.opened {g' : EmergencyManager} (hback : g'.cloudBack = false)
    (hhears : ¬ HearsCloud P c m) (hqueues : Queues m) : OfCycle P c (es ++ [m]) g' := by
  rw [OfCycle, hback, since_snoc]
  simp [hhears, hqueues]

/-- Out of a cycle the flag is down. -/
theorem OfCycle.down {g : EmergencyManager} (h : OfCycle P c es g)
    (hs : ¬ (g.state = .queued ∨ g.state = .executing)) : g.cloudBack = false := by
  rw [← Bool.not_eq_true]
  exact fun hc => hs (h.mp hc).1

theorem not_hearsCloud_of_unheard (h : arrived P m = none) : ¬ HearsCloud P c m :=
  fun ⟨r, hn⟩ => not_notes_of_unheard h r hn

theorem not_queues_of_silent (h : ∀ ev ∈ m.evs, ev.kind ≠ .wall) : ¬ Queues m :=
  fun ⟨_, _, hq⟩ => h _ hq rfl

/-- A message raises the flag of a cycle under way, and abandons one only where
the flag is down. -/
theorem OfCycle.handled {wall : ESPTime} {header : GbbHeader} {g g' : EmergencyManager}
    (h : OfCycle P c es g) (hf : Handled c.emergency wall header g g')
    (hhears : HearsCloud P c m ↔ header.invSetup = true) (hqueues : ¬ Queues m)
    (hkept : g.state = .queued → header.hasLinesOnNoInvSetup = true →
      (storedBy header g.store).sets.isEmpty = true →
      header.invSetup = false ∧ g.cloudBack = false) :
    OfCycle P c (es ++ [m]) g' := by
  by_cases hg : g.state = .queued ∨ g.state = .executing
  · have hback : g'.cloudBack = (g.cloudBack || header.invSetup) := by
      rw [hf.cloudBack, decide_eq_true hg, Bool.and_true]
    by_cases hg' : g'.state = .queued ∨ g'.state = .executing
    · rw [OfCycle, hback, Bool.or_eq_true, since_snoc, hhears, and_iff_left hqueues]
      rw [OfCycle, and_iff_right hg] at h
      rw [and_iff_right hg', h, or_comm]
    · have hq : g.state = .queued := hg.resolve_right fun hx => hg' <| .inr <| by
        rw [hf.state, stateAfter_executing, hx]
      have hs := hf.state
      rw [hq, stateAfter_of_queued] at hs
      split at hs
      · next hl =>
          obtain ⟨hi, hb⟩ := hkept hq hl.1 hl.2
          exact .over (by rw [hback, hi, hb]; rfl) hg'
      · exact absurd (.inl hs) hg'
  · refine .over ?_ fun hg' => hg ?_
    · rw [hf.cloudBack, h.down hg, decide_eq_false hg, Bool.and_false]
      rfl
    · rw [hf.state, stateAfter_executing] at hg'
      exact hg'.imp (stateAfter_queued _ _ _) id

theorem OfCycle.step (h : OfCycle P c es m.pre.manager) (hm : AlarmCase P c m) (hw : Sound m.pre)
    (hno : ¬ Strands P m) : OfCycle P c (es ++ [m]) m.post.manager := by
  cases hm with
  | still same silent noResult unheard =>
      refine h.carry (not_hearsCloud_of_unheard unheard) (not_queues_of_silent silent)
        same.cloudBack ?_
      rcases same.state with hs | ⟨hq, hx⟩
      · rw [hs]
      · simp [hq, hx]
  | message payload wall o header act parsed handled only =>
      have hheard : HearsCloud P c m ↔ header.invSetup = true := by
        rw [HearsCloud]
        simp [notes_message_iff act parsed]
      refine h.handled handled hheard ?_ ?_
      · rintro ⟨cause, r, hq⟩
        cases (only _ hq rfl).2
      · intro hq hl he
        have hstored : m.pre.manager.store.sets.isEmpty = false := by
          rw [← Bool.not_eq_true, ← hw.emptiness (by rw [hq]; decide), hq]
          decide
        rw [storedBy, if_pos hl, setLines_isEmpty hstored] at he
        rw [← Bool.not_eq_true, ← Bool.not_eq_true, ← not_or]
        exact fun hc => hno ⟨payload, wall, o, header, act, parsed, hq, hl, he.1, he.2, hc⟩
  | checked wait₁ wait₂ t wall lastCheck act check =>
      have hhears : ¬ HearsCloud P c m := not_hearsCloud_of_unheard (unheard_check act)
      have hdown := h.down
      generalize hevs : m.evs = evs at check
      generalize m.post.manager = g' at check ⊢
      have hqueues : ∀ {cause r}, evs = [.queued cause r] → Queues m := fun he =>
        ⟨_, _, by rw [hevs, he]; exact List.mem_singleton.mpr rfl⟩
      have hnot : (∀ cause r, Event.queued cause r ∉ evs) → ¬ Queues m := fun he hq => by
        obtain ⟨cause, r, hq⟩ := hq
        exact he cause r (hevs ▸ hq)
      cases check with
      | still => exact h.carry hhears (hnot (by simp)) rfl Iff.rfl
      | emptied ha =>
          exact .over (hdown (by rw [show m.pre.manager.state = _ from ha]; simp)) (by simp)
      | stamped ha =>
          exact h.carry hhears (hnot (by simp)) rfl Iff.rfl
      | hourly ha =>
          exact .opened (hdown (by rw [show m.pre.manager.state = _ from ha]; simp)) hhears
            (hqueues rfl)
      | retry hb =>
          exact .opened (hdown (by rw [show m.pre.manager.state = _ from hb]; simp)) hhears
            (hqueues rfl)
  | result t s d executing leave event silent time unheard =>
      have hhears := not_hearsCloud_of_unheard (c := c) unheard
      have hqueues := not_queues_of_silent silent
      generalize m.post.manager = g' at leave ⊢
      cases leave with
      | next => exact h.carry hhears hqueues rfl (by simp [executing])
      | delivered => exact .over rfl (by simp)
      | cloudBack => exact .over rfl (by simp)
      | backoff delay _ _ hback => exact .over hback (by simp)

/-- A message that is accepted reaches `handle_fields`. -/
theorem Step.handled {payload : Bytes} {wall : ESPTime} {o : NvsOutcome} {header : GbbHeader}
    (h : Step P c m) (hact : m.act = .message payload wall o)
    (hparsed : acceptedHeader P payload = some header) :
    Handled c.emergency wall header m.pre.manager m.post.manager := by
  have hpost : m.post.manager =
      (m.pre.manager.handleFields P c.emergency wall o header m.pre.flash).1 := by
    rw [show m.post = (m.act.perform P c m.pre).1 from congrArg Prod.fst h.2, hact]
    show (onCloudMessage P c payload wall o m.pre).1.dongle.emergency = _
    simp only [onCloudMessage, hparsed, acceptHeader]
    split
    · rw [(applyLogLevel_same _ _).2.1]
    · rfl
  rw [hpost]
  exact handleFields_handled P c.emergency wall o header m.pre.manager m.pre.flash

/-- The step that abandons such a cycle leaves its flag behind. -/
theorem Strands.stale (h : Strands P m) (hm : Step P c m) (hw : Sound m.pre) :
    m.post.manager.cloudBack = true ∧ m.post.manager.state = .empty := by
  obtain ⟨payload, wall, o, header, act, parsed, hq, hl, hnil, he, hc⟩ := h
  have hf := hm.handled act parsed
  have hstored : m.pre.manager.store.sets.isEmpty = false := by
    rw [← Bool.not_eq_true, ← hw.emptiness (by rw [hq]; nofun), hq]
    nofun
  constructor
  · rw [hf.cloudBack, hq]
    rcases hc with hi | hb
    · simp [hi]
    · simp [hb]
  · have hempty : (storedBy header m.pre.manager.store).sets.isEmpty = true := by
      rw [storedBy, if_pos hl, setLines_isEmpty hstored]
      exact ⟨hnil, he⟩
    rw [hf.state, hq, stateAfter_of_queued, if_pos ⟨hl, hempty⟩]

/-! ## The ways out -/

/-- Where the step that ends a cycle leaves the manager, when the cycle has or
has not heard the cloud. -/
structure Ends (heard : Prop) (m : Moment) : Prop where
  empty : m.post.sets.isEmpty = true → m.post.manager.state = .empty
  armed : m.post.sets.isEmpty = false → heard → m.post.manager.state = .armed
  backoff : m.post.sets.isEmpty = false → ¬ heard → m.post.manager.state = .backoff ∧
    ∃ t, m.pre.now ≤ t ∧ t ≤ m.post.now ∧
      m.post.manager.retryAt = millis t + m.pre.manager.retryDelayMs

theorem EndsCycle.ends (h : EndsCycle m) (hm : StepCase P c m) (hw : Sound m.pre) :
    m.pre.manager.state = .executing ∧ Ends (m.pre.manager.cloudBack = true) m := by
  have hres : HandlesResult m := h.imp fun key h => h.imp fun next h => h.1
  have hleaves : m.post.manager.state ≠ .queued := by
    obtain ⟨key, next, hev, hne⟩ := h
    obtain ⟨-, -, -, hleft, -⟩ := hm.of_resultHandled hw hev
    rwa [← hleft]
  cases hm.alarm hw with
  | still _ _ noResult => exact absurd hres noResult
  | message _ _ _ _ _ _ _ _ noResult => exact absurd hres noResult
  | checked _ _ _ _ _ _ _ noResult => exact absurd hres noResult
  | result t s d executing leave event silent time =>
      have hsets : ∀ g : EmergencyManager, m.post.manager = g → m.post.sets = g.store.sets :=
        fun g hg => congrArg (fun g : EmergencyManager => g.store.sets) hg
      generalize hg : m.post.manager = g' at leave hleaves
      have hs := hsets g' hg
      refine ⟨executing, ?_⟩
      cases leave with
      | next => exact absurd rfl hleaves
      | delivered _ he =>
          refine ⟨fun _ => by rw [hg], fun hn => ?_, fun hn => ?_⟩
          all_goals
            rw [hs, he] at hn
            cases hn
      | cloudBack _ he hback =>
          refine ⟨fun hn => ?_, fun _ _ => by rw [hg], fun _ hno => absurd hback hno⟩
          rw [hs, he] at hn
          cases hn
      | backoff delay _ he hback =>
          refine ⟨fun hn => ?_, fun _ hyes => ?_,
            fun _ _ => ⟨by rw [hg], t, time.1, time.2, by rw [hg]⟩⟩
          · rw [hs, he] at hn
            cases hn
          · rw [show m.pre.manager.cloudBack = false from hback] at hyes
            cases hyes

theorem Ends.congr {p q : Prop} (h : Ends p m) (hpq : p ↔ q) : Ends q m :=
  ⟨h.empty, fun he hq => h.armed he (hpq.mpr hq),
    fun he hq => h.backoff he fun hp => hq (hpq.mp hp)⟩

/-- The check that queues a cycle is no message. -/
theorem AlarmCase.not_hearsCloud (hm : AlarmCase P c m) (h : Queues m) : ¬ HearsCloud P c m := by
  obtain ⟨cause, r, hq⟩ := h
  cases hm with
  | still same silent => exact absurd rfl (silent _ hq)
  | message payload wall o header act parsed handled only => cases (only _ hq rfl).2
  | checked wait₁ wait₂ t wall lastCheck act => exact not_hearsCloud_of_unheard (unheard_check act)
  | result t s d executing leave event silent => exact absurd rfl (silent _ hq)

/-- A cycle's end and its flag are its own. -/
structure KeepsToItself (P : Platform) (c : Config) (before : List Moment)
    (m : Moment) : Prop where
  flag : m.post.manager.cloudBack = true →
    (m.post.manager.state = .queued ∨ m.post.manager.state = .executing) ∧
      Since (HearsCloud P c) (fun n => ¬ Queues n) (before ++ [m])
  ends : ∀ first queue mid, before = first ++ queue :: mid → Queues queue →
    (∀ n ∈ mid, ¬ Queues n) → EndsCycle m → Ends (∃ n ∈ mid, HearsCloud P c n) m

/-- How a cycle ends depends on that cycle alone, in every run that never
strands the flag, and in no other. -/
theorem cycles_keep_to_themselves_iff {b : BootInput} (h : Runs P c (setup P b).1 es w) :
    (∀ before m after, es = before ++ m :: after → KeepsToItself P c before m) ↔
      ∀ m ∈ es, ¬ Strands P m := by
  constructor
  · intro hall m hm hstrands
    obtain ⟨before, after, rfl⟩ := List.append_of_mem hm
    obtain ⟨hpre, hstep, -⟩ := h.at
    obtain ⟨hback, hempty⟩ := hstrands.stale hstep (Runs.sound hpre)
    have hflag := ((hall before m after rfl).flag hback).1
    rw [hempty] at hflag
    simp at hflag
  · rintro hno before m after rfl
    have hcycle : ∀ fs w, Runs P c (setup P b).1 fs w → (∀ n ∈ fs, ¬ Strands P n) →
        OfCycle P c fs w.manager := by
      intro fs w hrun hno
      have hboot := setup_alarm P b
      refine hrun.guarded.history (H := fun fs w => (∀ n ∈ fs, ¬ Strands P n) →
        OfCycle P c fs w.manager) (fun _ => .over hboot.2.2 ?_) (fun fs n _ ih hn hno => ?_) hno
      · rcases hboot.1 with hs | hs <;> simp [hs]
      · have hih := ih fun x hx => hno x (by simp [hx])
        exact hih.step (hn.1.alarm hn.2.1) hn.2.1 (hno n (by simp))
    obtain ⟨hpre, hstep, -⟩ := h.at
    obtain ⟨-, hm, -⟩ := h.guarded.at
    have hbefore := hcycle before m.pre hpre fun n hn => hno n (by simp [hn])
    have hafter := hcycle (before ++ [m]) m.post (Run.snoc hpre hstep) fun n hn => hno n (by
      rw [List.append_cons]
      exact List.mem_append_left _ hn)
    refine ⟨hafter.mp, ?_⟩
    rintro first queue mid rfl hqueue hmid hend
    obtain ⟨hx, hends⟩ := hend.ends hm.1 hm.2.1
    have hopen : ¬ HearsCloud P c queue := (Runs.alarm hpre).at.2.1.not_hearsCloud hqueue
    refine hends.congr (Iff.trans hbefore ?_)
    rw [and_iff_right (.inr hx), since_append_cons hopen (fun hno => hno hqueue) hmid]

/-- A message that comes while no cycle is queued strands nothing. -/
theorem not_strands (h : m.act.isMessage = true → m.pre.manager.state ≠ .queued) :
    ¬ Strands P m := by
  rintro ⟨payload, wall, o, header, act, -, hq, -⟩
  exact h (by rw [act]; rfl) hq

/-- In the night run the first set goes unheard by the cloud, and so does the
second; no message comes while the cycle is queued. -/
theorem cycles_keep_to_themselves_iff_night :
    ∃ h : 40 < nightRun.length, KeepsToItself nightDevice {} (nightRun.take 40) nightRun[40] := by
  have hlen : 40 < nightRun.length := by decide +kernel
  have hmessages : ∀ m ∈ nightRun, m.act.isMessage = true → m.pre.manager.state ≠ .queued := by
    decide +kernel
  have hrun : Runs nightDevice {} (setup nightDevice unplugged).1 nightRun _ := performAll_runs rfl
  exact ⟨hlen, (cycles_keep_to_themselves_iff hrun).mpr
    (fun m hm => not_strands (hmessages m hm)) _ _ _ (pick_one nightRun 40 hlen)⟩

/-- An InvSetup that clears the only set before it was handed over. -/
def clearDoc : Json :=
  .obj [("SubInverterSN", .str (text "A")), ("IsInvSetup", .int 1), ("LinesOnNoInvSetup", .arr [])]

def staleDocs : List Json :=
  [keepDoc 1 "A" "01060001000259CB", clearDoc, keepDoc 0 "B" "0206000100039838"]

/-- The next set meets an inverter that does not answer. -/
def staleRun : List Moment × World :=
  performAll (bench staleDocs) {}
    ([arrives (keepDoc 1 "A" "01060001000259CB") (clockAt 0 0)] ++
      callAfter 5000 [] (clockAt 2 20) ++
      [arrives clearDoc (clockAt 2 20),
        arrives (keepDoc 0 "B" "0206000100039838") (clockAt 2 30)] ++
      callAfter 5000 [] (clockAt 3 20) ++ callAfter 1 [] (clockAt 3 20) ++
      callAfter 2000 [] (clockAt 3 20) ++ callAfter 1 [] (clockAt 3 20))
    (setup (bench staleDocs) unplugged).1

/-- The cycle of twenty past three hears nothing of the cloud and leaves its set
undelivered, and yet it ends in ARMED where such a cycle ends in BACKOFF. -/
theorem retry_lost_to_stale_flag :
    Runs (bench staleDocs) {} (setup (bench staleDocs) unplugged).1 staleRun.1 staleRun.2 ∧
      ∃ h : 14 + 1 + 13 < staleRun.1.length,
        Event.queued .hourly (clockAt 3 20) ∈ staleRun.1[14].evs ∧
        (∀ n ∈ (staleRun.1.drop 15).take 13, noted (bench staleDocs) {} n = none) ∧
        EndsCycle staleRun.1[14 + 1 + 13] ∧
        staleRun.1[14 + 1 + 13].post.sets.isEmpty = false ∧
        staleRun.1[14 + 1 + 13].post.manager.state = .armed ∧
        staleRun.1[8].pre.manager.state = .empty ∧
        staleRun.1[8].pre.manager.cloudBack = true := by
  have hlen : 14 + 1 + 13 < staleRun.1.length := by decide +kernel
  refine ⟨performAll_runs rfl, hlen, ?_, by decide +kernel, ?_, ?_, ?_, ?_, ?_⟩
  all_goals decide +kernel +revert

end Gbb
