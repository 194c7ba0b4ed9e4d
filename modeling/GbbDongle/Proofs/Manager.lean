import GbbDongle.Model.Manager
import GbbDongle.Proofs.Executor
import GbbDongle.Proofs.Store

/-!
# What the manager's functions do

One equation or one list of cases for each function of the emergency manager,
in the terms the invariants over runs are stated in: the state, the flags, the
walk, and what becomes of the sets.
-/

namespace Gbb.EmergencyManager

open Wrap

variable {P : Platform} {c : EmergencyConfig} {o : NvsOutcome} {wall : ESPTime}
  {header : GbbHeader} {m : EmergencyManager} {e : ModbusExecutor} {flash : Flash}
  {t t₁ t₂ : Nat}

/-- Boot arms the manager exactly when it restored something. -/
theorem setup_state (P : Platform) (oSync oLoad : NvsOutcome) (persist : Option Bool)
    (flash : Flash) :
    (({} : EmergencyManager).setup P oSync oLoad persist flash).1.state =
      if (({} : EmergencyManager).setup P oSync oLoad persist flash).1.store.sets.isEmpty then
        .empty else .armed := by
  unfold EmergencyManager.setup
  split
  · rfl
  · rfl
  · have hempty :
        (EmergencyStore.setPersistEnabled P oSync true {} flash).1.sets.isEmpty = true := by
      rw [EmergencyStore.setPersistEnabled_sets]
      rfl
    dsimp only
    have hl : ∀ flash' : Flash, (EmergencyStore.loadFromNvs P oLoad
        (EmergencyStore.setPersistEnabled P oSync true {} flash).1 flash').2.1.sets.isEmpty = _ :=
      fun _ => EmergencyStore.loadFromNvs_isEmpty hempty
    replace hl := hl (EmergencyStore.setPersistEnabled P oSync true {} flash).2.1
    split
    · next h =>
        rw [h] at hl
        rw [if_neg (by rw [hl]; decide)]
    · next h =>
        rw [Bool.not_eq_true] at h
        rw [h, Bool.not_false] at hl
        rw [if_pos hl]

/-- The sets boot restores are numbered from one on. -/
theorem setup_numbered (P : Platform) (oSync oLoad : NvsOutcome) (persist : Option Bool)
    (flash : Flash) :
    (({} : EmergencyManager).setup P oSync oLoad persist flash).1.store.sets.entries.length <
        2 ^ 32 →
      EmergencyStore.Numbered
        (({} : EmergencyManager).setup P oSync oLoad persist flash).1.store.sets.entries.length
        (({} : EmergencyManager).setup P oSync oLoad persist flash).1.store := by
  have hempty : EmergencyStore.Numbered 0 {} := ⟨rfl, nofun, fun _ hk => absurd rfl hk⟩
  unfold EmergencyManager.setup
  split
  · exact fun _ => hempty
  · exact fun _ => hempty
  · have hs := EmergencyStore.setPersistEnabled_sameSets P oSync true {} flash
    dsimp only
    split
    · exact EmergencyStore.loadFromNvs_numbered hs.sets hs.revisions hs.nextRevision
    · exact EmergencyStore.loadFromNvs_numbered hs.sets hs.revisions hs.nextRevision

/-! ## Messages -/

/-- `IsInvSetup`, read as one assignment to each field. -/
theorem noteInvSetup_eq (now : ESPTime) (m : EmergencyManager) :
    m.noteInvSetup now =
      { m with
        lastInvSetupTs := if now.valid then now.timestamp else m.lastInvSetupTs
        invSetupAwaitingTime := !now.valid
        bootLoadedAwaitingTime := false
        state := if m.state = .backoff then .armed else m.state
        cloudBack := m.cloudBack || decide (m.state = .queued ∨ m.state = .executing) } := by
  obtain ⟨store, state, last, boot, await, back, walk, key, rev, delay, at', check, runs, del⟩ := m
  cases hv : now.valid <;> cases state <;> simp [noteInvSetup, hv]

/-- The manager between the two halves of `handle_fields`. -/
def noted (c : EmergencyConfig) (wall : ESPTime) (header : GbbHeader) (m : EmergencyManager) :
    EmergencyManager :=
  if header.invSetup then m.noteInvSetup (c.read wall) else m

/-- What a message makes of the store, flash bookkeeping aside. -/
def storedBy (header : GbbHeader) (s : EmergencyStore) : EmergencyStore :=
  if header.hasLinesOnNoInvSetup then
    (s.setLines header.setKey header.linesOnNoInvSetup).2
  else s

/-- The state a message leads to from `st`, with `isEmpty` saying whether sets
are left. -/
def stateAfter (header : GbbHeader) (isEmpty : Bool) (st : EmergencyState) : EmergencyState :=
  let st := if header.invSetup = true ∧ st = .backoff then .armed else st
  if header.hasLinesOnNoInvSetup then
    if isEmpty then if st = .executing then .executing else .empty
    else if st = .empty then .armed
    else st
  else st

/-- The manager as `handle_fields` leaves it, field by field. -/
structure Handled (c : EmergencyConfig) (wall : ESPTime) (header : GbbHeader)
    (m m' : EmergencyManager) : Prop where
  store : EmergencyStore.SameSets (storedBy header m.store) m'.store
  state : m'.state = stateAfter header (storedBy header m.store).sets.isEmpty m.state
  lastInvSetupTs : m'.lastInvSetupTs =
    if header.invSetup = true ∧ (c.read wall).valid = true then (c.read wall).timestamp
    else m.lastInvSetupTs
  invSetupAwaitingTime : m'.invSetupAwaitingTime =
    if header.invSetup then !(c.read wall).valid else m.invSetupAwaitingTime
  bootLoadedAwaitingTime : m'.bootLoadedAwaitingTime =
    (!header.invSetup && m.bootLoadedAwaitingTime)
  cloudBack : m'.cloudBack =
    (m.cloudBack || (header.invSetup && decide (m.state = .queued ∨ m.state = .executing)))
  walkFromStart : m'.walkFromStart = m.walkFromStart
  currentKey : m'.currentKey = m.currentKey
  currentRevision : m'.currentRevision = m.currentRevision
  retryAt : m'.retryAt = m.retryAt
  retryDelayMs : m'.retryDelayMs = m.retryDelayMs

@[simp] theorem noted_store : (noted c wall header m).store = m.store := by
  rw [noted]
  split
  · rw [noteInvSetup_eq]
  · rfl

theorem afterStore_eq (m : EmergencyManager) :
    m.afterStore =
      { m with
        state :=
          if m.store.sets.isEmpty then if m.state = .executing then .executing else .empty
          else if m.state = .empty then .armed else m.state } := by
  obtain ⟨store, state, last, boot, await, back, walk, key, rev, delay, at', check, runs, del⟩ := m
  rw [afterStore]
  cases store.sets.isEmpty <;> cases state <;> rfl

theorem setLines_unchanged {key : Bytes} {lines : List GbbLine} {s : EmergencyStore}
    (h : (s.setLines key lines).1 = false) : (s.setLines key lines).2 = s := by
  have hc := EmergencyStore.setLines_case key lines s
  generalize s.setLines key lines = r at hc h ⊢
  cases hc with
  | absent => rfl
  | cleared => cases h
  | same => rfl
  | stored => cases h

/-- `handle_fields` notes the InvSetup, and then adjusts store and state. -/
theorem handleFields_noted (P : Platform) (c : EmergencyConfig) (wall : ESPTime)
    (o : NvsOutcome) (header : GbbHeader) (m : EmergencyManager) (flash : Flash) :
    ∃ s, EmergencyStore.SameSets (storedBy header m.store) s ∧
      (m.handleFields P c wall o header flash).1 =
        { noted c wall header m with
          store := s
          state :=
            if header.hasLinesOnNoInvSetup then
              if s.sets.isEmpty then
                if (noted c wall header m).state = .executing then .executing else .empty
              else if (noted c wall header m).state = .empty then .armed
              else (noted c wall header m).state
            else (noted c wall header m).state } := by
  rw [handleFields]
  have hn : (if header.invSetup then m.noteInvSetup (c.read wall) else m) = noted c wall header m :=
    rfl
  simp only [hn]
  by_cases hl : header.hasLinesOnNoInvSetup = true
  · simp only [if_pos hl, storedBy, storeLines, noted_store]
    split
    · exact ⟨_, EmergencyStore.syncNvs_sameSets P o _ flash, afterStore_eq _⟩
    · next hch =>
        rw [setLines_unchanged (by simpa using hch)]
        refine ⟨m.store, ⟨rfl, rfl, rfl⟩, ?_⟩
        rw [afterStore_eq, noted_store]
  · simp only [if_neg hl, storedBy]
    refine ⟨m.store, ⟨rfl, rfl, rfl⟩, ?_⟩
    show noted c wall header m = { noted c wall header m with store := m.store }
    rw [← @noted_store c wall header m]

theorem handleFields_handled (P : Platform) (c : EmergencyConfig) (wall : ESPTime)
    (o : NvsOutcome) (header : GbbHeader) (m : EmergencyManager) (flash : Flash) :
    Handled c wall header m (m.handleFields P c wall o header flash).1 := by
  obtain ⟨s, hs, heq⟩ := handleFields_noted P c wall o header m flash
  rw [heq]
  have hstate : (noted c wall header m).state =
      if header.invSetup = true ∧ m.state = .backoff then .armed else m.state := by
    rw [noted]
    split
    · next hi => simp only [noteInvSetup_eq, hi, true_and]
    · next hi => rw [if_neg (fun h => hi h.1)]
  refine ⟨hs, ?_, ?_, ?_, ?_, ?_, ?_, ?_, ?_, ?_, ?_⟩
  · simp only [stateAfter, hstate, hs.sets]
  all_goals
    simp only [noted]
    split <;> rename_i hi <;> simp [noteInvSetup_eq, hi]

/-! ## The trigger -/

/-- What a call of `check_trigger_` can come to. -/
inductive CheckCase (c : EmergencyConfig) (t : Nat) (wall : ESPTime) (m : EmergencyManager) :
    EmergencyManager × List Event → Prop
  | still : CheckCase c t wall m (m, [])
  | emptied : m.state = .armed → m.store.sets.isEmpty = true →
      CheckCase c t wall m ({ m with state := .empty }, [])
  | stamped : m.state = .armed → m.store.sets.isEmpty = false → (c.read wall).valid = true →
      (m.invSetupAwaitingTime || m.bootLoadedAwaitingTime) = true →
      CheckCase c t wall m
        ({ m with
            invSetupAwaitingTime := false
            bootLoadedAwaitingTime := false
            lastInvSetupTs := (c.read wall).timestamp },
          [.stamped (c.read wall).timestamp])
  | hourly : m.state = .armed → m.store.sets.isEmpty = false → (c.read wall).valid = true →
      (m.invSetupAwaitingTime || m.bootLoadedAwaitingTime) = false →
      overdue c (c.read wall).timestamp m = true →
      CheckCase c t wall m
        ({ m with
            retryDelayMs := c.retryInitialMs
            walkFromStart := true
            state := .queued },
          [.queued .hourly (c.read wall)])
  | retry : m.state = .backoff → reached (millis t) m.retryAt = true →
      CheckCase c t wall m
        ({ m with walkFromStart := true, state := .queued }, [.queued .retry (c.read wall)])

theorem checkTrigger_case (c : EmergencyConfig) (t : Nat) (wall : ESPTime)
    (m : EmergencyManager) : CheckCase c t wall m (checkTrigger c t wall m) := by
  rw [checkTrigger]
  split
  · next hs =>
      split
      · next hr => exact .retry hs hr
      · exact .still
  · next hs =>
      split
      · next he => exact .emptied hs he
      · next he =>
          rw [Bool.not_eq_true] at he
          split
          · exact .still
          · next hv =>
              rw [Bool.not_eq_false] at hv
              split
              · next ha => exact .stamped hs he hv ha
              · next ha =>
                  rw [Bool.not_eq_true] at ha
                  split
                  · next ho => exact .hourly hs he hv ha ho
                  · exact .still
  all_goals exact .still

/-- With sets to watch over, a synced clock and nothing left to date, the check
comes down to one comparison. -/
theorem checkTrigger_watching (hs : m.state = .armed) (he : m.store.sets.isEmpty = false)
    (hv : (c.read wall).valid = true) (ha : m.invSetupAwaitingTime = false)
    (hb : m.bootLoadedAwaitingTime = false) :
    (checkTrigger c t wall m).2 =
      if overdue c (c.read wall).timestamp m then [.queued .hourly (c.read wall)] else [] := by
  rw [checkTrigger, hs]
  dsimp only
  rw [if_neg (by rw [he]; exact Bool.false_ne_true), if_neg (by rw [hv]; nofun),
    if_neg (by rw [ha, hb]; exact Bool.false_ne_true)]
  split <;> rfl

/-- What a check leaves alone, and how a cycle it queues starts. -/
structure Kept (m m' : EmergencyManager) : Prop where
  store : m'.store = m.store
  currentKey : m'.currentKey = m.currentKey
  executing : m'.state = .executing ↔ m.state = .executing
  queued : m'.state = .queued →
    m'.walkFromStart = true ∨ (m.state = .queued ∧ m'.walkFromStart = m.walkFromStart)
  walking : m.state = .executing → m'.walkFromStart = m.walkFromStart
  empty : (m.state = .empty ↔ m.store.sets.isEmpty = true) →
    (m'.state = .empty ↔ m.store.sets.isEmpty = true)

theorem CheckCase.kept {r : EmergencyManager × List Event} (h : CheckCase c t wall m r) :
    Kept m r.1 := by
  cases h with
  | still => exact ⟨rfl, rfl, Iff.rfl, fun h => .inr ⟨h, rfl⟩, fun _ => rfl, id⟩
  | emptied hs he =>
      refine ⟨rfl, rfl, ?_, nofun, fun _ => rfl, fun _ => ?_⟩
      · simp [hs]
      · simp [he]
  | stamped hs he =>
      exact ⟨rfl, rfl, Iff.rfl, fun h => .inr ⟨h, rfl⟩, fun _ => rfl, id⟩
  | hourly hs he =>
      refine ⟨rfl, rfl, ?_, fun _ => .inl rfl, fun h => ?_, fun _ => ?_⟩
      · simp [hs]
      · rw [hs] at h
        cases h
      · simp [he]
  | retry hs =>
      refine ⟨rfl, rfl, ?_, fun _ => .inl rfl, fun h => ?_, fun hem => ?_⟩
      · simp [hs]
      · rw [hs] at h
        cases h
      · rw [← hem]
        simp [hs]

/-- A check does nothing to a cycle that is queued or running. -/
theorem checkTrigger_still {m' : EmergencyManager} {evs : List Event}
    (h : CheckCase c t wall m (m', evs)) (hs : m.state = .executing ∨ m.state = .queued) :
    m' = m ∧ evs = [] := by
  cases h with
  | still => exact ⟨rfl, rfl⟩
  | emptied ha => rw [ha] at hs; simp at hs
  | stamped ha => rw [ha] at hs; simp at hs
  | hourly ha => rw [ha] at hs; simp at hs
  | retry ha => rw [ha] at hs; simp at hs

/-! ## The cycle -/

/-- The next stored entry is an entry, and it is the least the walk may take. -/
theorem nextEntry_find? {key : Bytes} {lines : List GbbLine}
    (h : m.nextEntry = some (key, lines)) : m.store.sets.find? key = some lines := by
  rw [nextEntry] at h
  split at h
  · exact (OrdMap.first?_eq_some h).1
  · exact (OrdMap.upperBound?_eq_some h).1

/-- The result of a run confirms its set or leaves the sets alone. -/
theorem confirm_cases (P : Platform) (o : NvsOutcome) (header : GbbHeader)
    (m : EmergencyManager) (flash : Flash) :
    ∃ s d, (m.confirm P o header flash).1 = { m with store := s, delivered := d } ∧
      EmergencyStore.SameSets
        (if header.lines.any answeredLine = true ∧
            m.store.revision m.currentKey = m.currentRevision then
          m.store.clear m.currentKey else m.store) s := by
  rw [confirm]
  by_cases hd : header.lines.any answeredLine = true
  · rw [if_pos hd]
    by_cases hr : m.store.revision m.currentKey = m.currentRevision
    · rw [if_pos hr, if_pos ⟨hd, hr⟩]
      exact ⟨_, _, rfl, EmergencyStore.syncNvs_sameSets P o _ flash⟩
    · rw [if_neg hr, if_neg (fun h => hr h.2)]
      exact ⟨m.store, _, rfl, rfl, rfl, rfl⟩
  · rw [if_neg hd, if_neg (fun h => hd h.1)]
    exact ⟨m.store, m.delivered, rfl, rfl, rfl, rfl⟩

/-- How `handle_result` leaves a run: on to the next set, or out of the cycle
in one of three ways. -/
inductive LeaveCase (c : EmergencyConfig) (t : Nat) (m : EmergencyManager) :
    EmergencyManager → Prop
  | next : (m.store.sets.upperBound? m.currentKey).isSome = true →
      LeaveCase c t m { m with state := .queued }
  | delivered : m.store.sets.upperBound? m.currentKey = none → m.store.sets.isEmpty = true →
      LeaveCase c t m { m with lastInvSetupTs := 0, cloudBack := false, state := .empty }
  | cloudBack : m.store.sets.upperBound? m.currentKey = none → m.store.sets.isEmpty = false →
      m.cloudBack = true → LeaveCase c t m { m with cloudBack := false, state := .armed }
  | backoff (delay : UInt32) : m.store.sets.upperBound? m.currentKey = none →
      m.store.sets.isEmpty = false → m.cloudBack = false →
      LeaveCase c t m
        { m with
          state := .backoff, retryAt := millis t + m.retryDelayMs, retryDelayMs := delay }

theorem leaveRun_case (c : EmergencyConfig) (t : Nat) (m : EmergencyManager) :
    LeaveCase c t m (leaveRun c t m) := by
  rw [leaveRun]
  split
  · next h => exact .next h
  · next h =>
      rw [Bool.not_eq_true, Option.isSome_eq_false_iff, Option.isNone_iff_eq_none] at h
      split
      · next he => exact .delivered h he
      · next he =>
          rw [Bool.not_eq_true] at he
          split
          · next hb => exact .cloudBack h he hb
          · next hb =>
              rw [Bool.not_eq_true] at hb
              exact .backoff _ h he hb

/-- Leaving a run does not touch the store. -/
theorem leaveRun_store (c : EmergencyConfig) (t : Nat) (m : EmergencyManager) :
    (leaveRun c t m).store = m.store := by
  have h := leaveRun_case c t m
  generalize leaveRun c t m = m' at h ⊢
  cases h <;> rfl

/-- What every way out of a run has in common. -/
structure Left (m m' : EmergencyManager) : Prop where
  state : m'.state ≠ .executing
  walkFromStart : m'.walkFromStart = m.walkFromStart
  currentKey : m'.currentKey = m.currentKey
  sets : m'.store.sets = m.store.sets ∨ m'.store.sets = m.store.sets.erase m.currentKey
  goesOn : m'.state = .queued ↔ ∃ entry, m'.store.sets.upperBound? m'.currentKey = some entry
  emptied : m'.state = .empty ↔ m'.store.sets.isEmpty = true

theorem isEmpty_of_upperBound? {s : Sets} {key : Bytes}
    (h : (s.upperBound? key).isSome = true) : s.isEmpty = false := by
  obtain ⟨⟨next, lines⟩, he⟩ := Option.isSome_iff_exists.mp h
  exact OrdMap.not_isEmpty_of_find? (OrdMap.upperBound?_eq_some he).1

theorem handleResult_left (P : Platform) (c : EmergencyConfig) (t : Nat) (o : NvsOutcome)
    (header : GbbHeader) (m : EmergencyManager) (flash : Flash) :
    Left m (m.handleResult P c t o header flash).1 := by
  obtain ⟨s, d, hc, hs⟩ := confirm_cases P o header m flash
  have hsets : s.sets = m.store.sets ∨ s.sets = m.store.sets.erase m.currentKey := by
    rw [hs.sets]
    split
    · exact .inr rfl
    · exact .inl rfl
  have hl := leaveRun_case c t { m with store := s, delivered := d }
  rw [handleResult, hc]
  show Left m (leaveRun c t { m with store := s, delivered := d })
  generalize leaveRun c t { m with store := s, delivered := d } = m' at hl ⊢
  cases hl with
  | next hu =>
      refine ⟨nofun, rfl, rfl, hsets, ⟨fun _ => Option.isSome_iff_exists.mp hu, fun _ => rfl⟩, ?_⟩
      rw [show s.sets.isEmpty = false from isEmpty_of_upperBound? hu]
      simp
  | delivered hu he =>
      exact ⟨nofun, rfl, rfl, hsets, by simp [hu], by simpa using he⟩
  | cloudBack hu he => exact ⟨nofun, rfl, rfl, hsets, by simp [hu], by simpa using he⟩
  | backoff delay hu he => exact ⟨nofun, rfl, rfl, hsets, by simp [hu], by simpa using he⟩

end Gbb.EmergencyManager
