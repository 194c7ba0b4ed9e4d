import GbbDongle.Proofs.Account
import GbbDongle.Proofs.Mirror
import GbbDongle.Proofs.Service
import GbbDongle.Proofs.Timers

/-!
# The last will

The sets are kept for the case that the cloud falls silent, and on a device
with persistence they are kept through a power cut. What the parts of the
firmware do for it is put together here. Boot finds the sets in flash as they
were and arms the check without a date. The first check after the sync dates
it, a check in a later hour queues a cycle, and the cycle hands every set over.
No message takes part in any of this.
-/

namespace Gbb

open History Wrap EmergencyManager EmergencyStore ModbusExecutor

variable {P : Platform} {c : Config} {m : Moment} {es fs gs hs : List Moment}
  {w w₁ w₂ : World} {S : Set Sets} {kept : Sets} {d top : Nat} {b : BootInput}

/-! ## Boot -/

/-- What boot finds in flash it keeps, and watches over. -/
theorem Reboot.restores (hm : Reboot P c m)
    (h : InFlash P S m.pre.manager.store m.pre.persistSwitch m.pre.flash) (ht : Trusted P S)
    (hok : m.act.nvsOk) (hon : m.pre.persistSwitch = some true) (hmem : m.pre.sets ∈ S)
    (hw : Written P m.pre.sets) :
    m.post.sets = m.pre.sets ∧ m.post.manager.state = .armed ∧
      m.post.manager.invSetupAwaitingTime = false ∧
      m.post.manager.bootLoadedAwaitingTime = true := by
  obtain ⟨b, hact, hflash, hpersist, hpost⟩ := hm
  rw [hact] at hok hpost
  have hcopy := (h.inStep (h.switch.mpr hon)).written hw
  have hon' : setPersistEnabled P .ok true {} m.pre.flash =
      ({ persistEnabled := true }, m.pre.flash, []) := setPersistEnabled_blank P .ok m.pre.flash
  obtain ⟨s, hload, hsets, -, -⟩ :=
    load_copy (s := { persistEnabled := true }) ht hmem hw h.storable rfl
  have hmanager : m.post.manager =
      (({} : EmergencyManager).setup P b.nvsSync b.nvsLoad b.persistSwitch b.flash).1 :=
    congrArg (fun r => r.1.manager) hpost
  rw [hok.1, hok.2, hflash, hpersist, hon, EmergencyManager.setup, hon', hcopy, hload] at hmanager
  have hpostsets : m.post.sets = s.sets := congrArg (fun g => g.store.sets) hmanager
  refine ⟨hpostsets.trans hsets, ?_⟩
  rw [hmanager]
  exact ⟨rfl, rfl, rfl⟩

/-- A device that no request has reached has not been on the bus. -/
structure Unused (w : World) : Prop where
  idle : w.executor.state = .idle
  lines : w.executor.header.lines = []
  pending : w.pending = none

/-- The manager as boot left it; once the clock is synced, with a date. -/
structure Restored (kept : Sets) (top : Nat) (w : World) : Prop where
  unused : Unused w
  armed : w.manager.state = .armed
  sets : w.sets = kept
  awaiting : w.manager.invSetupAwaitingTime = false
  dated : w.manager.bootLoadedAwaitingTime = false →
    0 < w.manager.lastInvSetupTs ∧ w.manager.lastInvSetupTs < top

/-- No message was accepted. -/
def Silent (m : Moment) : Prop := ∀ header, Event.accepted header ∉ m.evs

theorem Step.accepts {payload : Bytes} {wall : ESPTime} {o : NvsOutcome} {header : GbbHeader}
    (hm : Step P c m) (hact : m.act = .message payload wall o)
    (hparsed : acceptedHeader P payload = some header) : Event.accepted header ∈ m.evs := by
  have hmem : header ∈ m.evs.filterMap acceptedHeaderOf := by
    rw [(hm.taken hact hparsed).2.2]
    exact List.mem_singleton.mpr rfl
  obtain ⟨ev, hev, hget⟩ := List.mem_filterMap.mp hmem
  cases ev <;> cases hget
  exact hev

theorem Unused.step (h : Unused m.pre) (hm : Timed P c m) (hsilent : Silent m)
    (harmed : m.pre.manager.state = .armed) : Unused m.post := by
  have hpending : m.post.pending = none := by
    cases (step_case hm.step).pending with
    | still ops pending => exact pending.trans h.pending
    | accepted header ops =>
        have hop : Mailbox.Op.put header ∈ m.evs.filterMap pendingOp := by
          rw [ops]
          exact List.mem_singleton.mpr rfl
        obtain ⟨ev, hev, hev'⟩ := List.mem_filterMap.mp hop
        cases ev <;> cases hev'
        exact absurd hev (hsilent header)
    | started header ops waiting =>
        rw [h.pending] at waiting
        cases waiting
  cases hm.exec with
  | rest b executor =>
      refine ⟨?_, ?_, hpending⟩
      · rw [executor]
        exact h.idle
      · rw [executor]
        exact h.lines
  | taken result =>
      rw [h.idle] at result
      cases result
  | handed t key lines idle queued =>
      rw [harmed] at queued
      cases queued
  | started t header idle queued waiting =>
      rw [h.pending] at waiting
      cases waiting
  | called call eq executor =>
      have hrests : m.post.executor = m.pre.executor := by
        rw [executor, poll, ModbusExecutor.loop, h.idle]
      refine ⟨?_, ?_, hpending⟩
      · rw [hrests]
        exact h.idle
      · rw [hrests]
        exact h.lines

/-- Without messages the watch stands until a cycle is queued. Only a check
dates it, and once it is dated it remains so. -/
theorem Restored.step (h : Restored kept top m.pre) (hm : Timed P c m) (hsilent : Silent m)
    (hkept : kept.isEmpty = false) (hquiet : ¬ Queues m)
    (hclock : m.pre.manager.bootLoadedAwaitingTime = true →
      ∀ r ∈ reading c m, r.valid = true → r.timestamp < top) :
    Restored kept top m.post ∧ (m.pre.manager.bootLoadedAwaitingTime = false →
      m.post.manager.bootLoadedAwaitingTime = false) := by
  have hunused := h.unused.step hm hsilent h.armed
  have hsets : m.post.sets = kept := by
    rcases (step_case hm.step).sets_cases hm.sound hsilent with hs | ⟨hs, -⟩
    · exact hs.trans h.sets
    · rw [h.armed] at hs
      cases hs
  cases (step_case hm.step).alarm hm.sound with
  | still same =>
      rw [← same.bootLoadedAwaitingTime]
      refine ⟨⟨hunused, ?_, hsets, same.invSetupAwaitingTime.trans h.awaiting, ?_⟩, id⟩
      · rcases same.state with hs | ⟨hs, -⟩
        · exact hs.trans h.armed
        · rw [h.armed] at hs
          cases hs
      · rw [same.bootLoadedAwaitingTime, same.lastInvSetupTs]
        exact h.dated
  | message payload wall o header act parsed =>
      exact absurd (hm.step.accepts act parsed) (hsilent header)
  | result t s d' executing =>
      rw [h.armed] at executing
      cases executing
  | checked wait₁ wait₂ t wall lastCheck act check =>
      have hread : reading c m = some (c.emergency.read wall) := by rw [reading, act]
      have hcheck (g : EmergencyManager) (hg : m.post.manager = g)
          (hc : CheckCase c.emergency t wall { m.pre.manager with lastCheck := lastCheck }
            (g, m.evs)) :
          Restored kept top m.post ∧ (m.pre.manager.bootLoadedAwaitingTime = false →
            m.post.manager.bootLoadedAwaitingTime = false) := by
        generalize hevs : m.evs = evs at hc
        cases hc with
        | still =>
            refine ⟨⟨hunused, ?_, hsets, ?_, ?_⟩, ?_⟩
            all_goals rw [hg]
            · exact h.armed
            · exact h.awaiting
            · exact h.dated
            · exact id
        | emptied _ hempty =>
            have hnone : m.pre.sets.isEmpty = true := hempty
            rw [h.sets, hkept] at hnone
            cases hnone
        | stamped _ _ hvalid hflags =>
            have hboot : m.pre.manager.bootLoadedAwaitingTime = true := by
              have hflags' : (m.pre.manager.invSetupAwaitingTime ||
                m.pre.manager.bootLoadedAwaitingTime) = true := hflags
              rwa [h.awaiting, Bool.false_or] at hflags'
            refine ⟨⟨hunused, ?_, hsets, ?_, fun _ => ?_⟩, fun _ => ?_⟩
            all_goals rw [hg]
            · exact h.armed
            · exact ⟨(c.emergency.read wall).pos hvalid, hclock hboot _ hread hvalid⟩
        | hourly => exact absurd ⟨_, _, hevs ▸ List.mem_singleton.mpr rfl⟩ hquiet
        | retry => exact absurd ⟨_, _, hevs ▸ List.mem_singleton.mpr rfl⟩ hquiet
      exact hcheck _ rfl check

/-- The walk of a cycle has still to come by this key. -/
def Ahead (key : Bytes) (g : EmergencyManager) : Prop :=
  g.walkFromStart = true ∨ g.currentKey < key

/-- A cycle over `kept` is under way: each of the sets was handed over, or is
there and ahead. -/
structure CarriesOut (kept : Sets) (es : List Moment) (w : World) : Prop where
  cycle : InCycle w.manager
  each : ∀ key lines, kept.find? key = some lines →
    (∃ x ∈ es, Hands key lines x) ∨ (Ahead key w.manager ∧ w.sets.find? key = some lines)

/-- All of the sets were handed over. -/
def CarriedOut (kept : Sets) (es : List Moment) : Prop :=
  ∀ key lines, kept.find? key = some lines → ∃ x ∈ es, Hands key lines x

/-- As long as nothing is handed over, the walk stays where it is, and only a
result gets the manager out of its state. -/
theorem StepCase.walk_stays (hm : StepCase P c m) (hw : Sound m.pre) (hsilent : Silent m)
    (hcycle : InCycle m.pre.manager) (hno : ∀ first key lines, .handed first key lines ∉ m.evs) :
    m.post.manager.walkFromStart = m.pre.manager.walkFromStart ∧
      m.post.manager.currentKey = m.pre.manager.currentKey ∧
      (m.post.manager.state = m.pre.manager.state ∨ HandlesResult m) := by
  cases hm with
  | quiet b executor manager =>
      rw [manager]
      exact ⟨rfl, rfl, .inl rfl⟩
  | message payload wall o header act parsed executor manager pending flash persist evs =>
      exact absurd (by rw [evs]; simp) (hsilent header)
  | toggled on o act executor manager =>
      rw [manager]
      exact ⟨rfl, rfl, .inl rfl⟩
  | handled t info wait o act result emergency executor manager pending flash persist evs =>
      have hl := handleResult_left P c.emergency t o m.pre.executor.header m.pre.manager
        m.pre.flash
      rw [← manager] at hl
      refine ⟨hl.walkFromStart, hl.currentKey,
        .inr ⟨m.pre.manager.currentKey, m.post.manager.state, ?_⟩⟩
      rw [evs, manager]
      exact List.mem_append_right _ (List.mem_singleton.mpr rfl)
  | finished info wait o act result emergency executor manager =>
      rw [manager]
      exact ⟨rfl, rfl, .inl rfl⟩
  | handed t key lines free queued next executor manager pending flash evs =>
      exact absurd (by rw [evs]; exact List.mem_cons_self) (hno _ _ _)
  | strayed free queued next =>
      obtain ⟨entry, hentry⟩ := hw.nextEntry queued
      rw [next] at hentry
      cases hentry
  | started t header free queued waiting executor manager =>
      rw [manager]
      exact ⟨rfl, rfl, .inl rfl⟩
  | executed rx wait₁ wait₂ wait₃ t₁ t₂ t₃ act executor manager =>
      rw [manager]
      exact ⟨rfl, rfl, .inl rfl⟩
  | checked wait₁ wait₂ t wall lastCheck act due executor check =>
      obtain ⟨manager, -⟩ := checkTrigger_still check hcycle.symm
      rw [manager]
      exact ⟨rfl, rfl, .inl rfl⟩

/-- What the walk hands over was the first of what is ahead. -/
theorem HandsOver.least {key key' : Bytes} {lines lines' : List GbbLine}
    (h : HandsOver m key lines) (hahead : Ahead key' m.pre.manager)
    (hstored : m.pre.sets.find? key' = some lines') : key ≤ key' := by
  have hmem : key' ∈ m.pre.manager.store.sets.keys := fun hnone => by
    have hsome : m.pre.manager.store.sets.find? key' = some lines' := hstored
    rw [hnone] at hsome
    cases hsome
  have hnext := h.next
  rw [nextEntry] at hnext
  split at hnext
  · exact (OrdMap.first?_eq_some hnext).2.2 hmem
  · next hwalk =>
      have hpast : m.pre.manager.currentKey < key' := hahead.resolve_left hwalk
      exact (OrdMap.upperBound?_eq_some hnext).2.2 ⟨hmem, hpast⟩

theorem CarriesOut.step (h : CarriesOut kept es m.pre) (hm : StepCase P c m) (hw : Sound m.pre)
    (hsilent : Silent m) :
    CarriesOut kept (es ++ [m]) m.post ∨ CarriedOut kept (es ++ [m]) := by
  have hearlier {key : Bytes} {lines : List GbbLine} (hx : ∃ x ∈ es, Hands key lines x) :
      ∃ x ∈ es ++ [m], Hands key lines x := by
    obtain ⟨x, hx, hands⟩ := hx
    exact ⟨x, List.mem_append_left _ hx, hands⟩
  rcases handedSets_step hm hw with ⟨-, hno⟩ | ⟨key, lines, hand⟩
  · obtain ⟨hwalk, hkey, hstate⟩ := hm.walk_stays hw hsilent h.cycle hno
    by_cases hcycle : InCycle m.post.manager
    · refine .inl ⟨hcycle, fun key lines hkept => ?_⟩
      rcases h.each key lines hkept with hx | ⟨hahead, hstored⟩
      · exact .inl (hearlier hx)
      · refine .inr ⟨?_, ?_⟩
        · rw [Ahead, hwalk, hkey]
          exact hahead
        · rcases hm.sets_cases hw hsilent with hs | ⟨hx, hs⟩
          · rw [hs]
            exact hstored
          · -- only the set that ran is given up, and the walk is past it
            have hpast : m.pre.manager.currentKey < key :=
              hahead.resolve_left (by simp [hw.walking hx])
            rw [hs, OrdMap.find?_erase_ne (ne_of_gt hpast)]
            exact hstored
    · refine .inr fun key lines hkept => ?_
      rcases h.each key lines hkept with hx | ⟨hahead, hstored⟩
      · exact hearlier hx
      · -- the cycle ends with nothing ahead
        have hends : EndsCycle m := by
          rcases hstate with hs | ⟨key, next, hev⟩
          · rw [InCycle, hs] at hcycle
            exact absurd h.cycle hcycle
          · obtain ⟨-, -, -, hnext, -⟩ := hm.of_resultHandled hw hev
            exact ⟨key, next, hev, fun hq => hcycle (.inl (hnext.symm.trans hq))⟩
        obtain ⟨-, hpast⟩ := hends.leaves hm hw
        obtain ⟨key', next, hev, -⟩ := hends
        have hx := (hm.of_resultHandled hw hev).1
        have hlt : m.pre.manager.currentKey < key := hahead.resolve_left (by simp [hw.walking hx])
        have hmem : key ∈ m.pre.sets.keys := fun hnone => by
          rw [hnone] at hstored
          cases hstored
        exact absurd hlt (not_lt.mpr (hpast key (.inl hmem)))
  · have hands : Hands key lines m := by
      obtain ⟨t, -, hevs⟩ := hand.evs
      exact ⟨_, by rw [hevs]; exact List.mem_cons_self⟩
    refine .inl ⟨.inr hand.executing, fun key' lines' hkept => ?_⟩
    rcases h.each key' lines' hkept with hx | ⟨hahead, hstored⟩
    · exact .inl (hearlier hx)
    · by_cases hkey : key' = key
      · subst hkey
        obtain rfl := Option.some.inj (hstored.symm.trans (nextEntry_find? hand.next))
        exact .inl ⟨m, by simp, hands⟩
      · refine .inr ⟨.inr ?_, ?_⟩
        · rw [hand.currentKey]
          exact lt_of_le_of_ne (hand.least hahead hstored) (Ne.symm hkey)
        · have hsets : m.post.sets = m.pre.sets := congrArg EmergencyStore.sets hand.store
          rw [hsets]
          exact hstored

theorem CarriedOut.mono (h : CarriedOut kept es) (hsub : ∀ x ∈ es, x ∈ fs) :
    CarriedOut kept fs := by
  intro key lines hkept
  obtain ⟨x, hx, hands⟩ := h key lines hkept
  exact ⟨x, hsub x hx, hands⟩

end Gbb
