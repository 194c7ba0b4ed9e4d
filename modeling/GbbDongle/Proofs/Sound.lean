import GbbDongle.Proofs.System

/-!
# What executor, manager and pending slot keep together

The three components never look into one another, and yet a cycle owns the bus.
`Sound` is the reason: the manager is EXECUTING exactly while the executor
holds an emergency header, a cycle that has to go on is QUEUED only in the
dispatch stage, where no message can get in, and there the executor is idle and
a next set is there to take. `Runs.sound` hands all of it to every run.
-/

namespace Gbb

open History Wrap EmergencyManager

variable {P : Platform} {c : Config}

structure Sound (w : World) : Prop where
  /-- The result was polled before anything is dispatched. -/
  taken : w.stage = .dispatch → w.executor.state ≠ .done
  /-- A queued cycle has not begun, except between a result and a dispatch. -/
  opening : w.stage ≠ .dispatch → w.manager.state = .queued → w.manager.walkFromStart = true
  walking : w.manager.state = .executing → w.manager.walkFromStart = false
  nextSet : w.manager.state = .queued → w.manager.walkFromStart = false →
    w.executor.state = .idle ∧ ∃ entry, w.manager.nextEntry = some entry
  owner : w.manager.state = .executing ↔
    w.executor.state ≠ .idle ∧ w.executor.header.emergency = true
  emptiness : w.manager.state ≠ .executing →
    (w.manager.state = .empty ↔ w.manager.store.sets.isEmpty = true)
  cloud : ∀ header, w.pending = some header → header.emergency = false

/-! ## Small facts -/

theorem parseHeader_emergency {payload : Bytes} {header : GbbHeader}
    (h : parseHeader P payload = some header) : header.emergency = false := by
  simp only [parseHeader, Option.bind_eq_bind, Option.bind_eq_some_iff] at h
  obtain ⟨root, -, lines, -, noInv, -, h⟩ := h
  rw [Option.some.injEq] at h
  rw [← h]

theorem acceptedHeader_emergency {payload : Bytes} {header : GbbHeader}
    (h : acceptedHeader P payload = some header) : header.emergency = false := by
  rw [acceptedHeader] at h
  split at h
  · cases h
  · exact parseHeader_emergency h

section
variable (header : GbbHeader) (isEmpty : Bool) (st : EmergencyState)

theorem stateAfter_executing :
    stateAfter header isEmpty st = .executing ↔ st = .executing := by
  simp only [stateAfter]
  cases st <;> cases header.hasLinesOnNoInvSetup <;> cases isEmpty <;>
    cases header.invSetup <;> simp

theorem stateAfter_queued (h : stateAfter header isEmpty st = .queued) : st = .queued := by
  simp only [stateAfter] at h
  revert h
  cases st <;> cases header.hasLinesOnNoInvSetup <;> cases isEmpty <;>
    cases header.invSetup <;> simp

/-- With lines the store decides, without them nothing does. -/
theorem stateAfter_empty (hst : st ≠ .executing) :
    stateAfter header isEmpty st = .empty ↔
      if header.hasLinesOnNoInvSetup then isEmpty = true else st = .empty := by
  simp only [stateAfter]
  revert hst
  cases st <;> cases header.hasLinesOnNoInvSetup <;> cases isEmpty <;>
    cases header.invSetup <;> simp

end

/-- A set that is queued to open a cycle is there. -/
theorem Sound.nextEntry {w : World} (hw : Sound w) (hq : w.manager.state = .queued) :
    ∃ entry, w.manager.nextEntry = some entry := by
  cases hwalk : w.manager.walkFromStart with
  | false => exact (hw.nextSet hq hwalk).2
  | true =>
      rw [EmergencyManager.nextEntry, if_pos hwalk]
      cases hf : w.manager.store.sets.first? with
      | some entry => exact ⟨entry, rfl⟩
      | none =>
          have he := (hw.emptiness (by rw [hq]; decide)).mpr (OrdMap.first?_eq_none.mp hf)
          rw [hq] at he
          cases he

/-- While the executor is free no set is running. -/
theorem Sound.not_executing_of_idle {w : World} (hw : Sound w) (h : w.executor.state = .idle) :
    w.manager.state ≠ .executing := fun hx => (hw.owner.mp hx).1 h

theorem Sound.idle_of_free {w : World} (hw : Sound w) (hs : w.stage = .dispatch)
    (hb : w.executor.busy = false) : w.executor.state = .idle := by
  have hd := hw.taken hs
  cases hst : w.executor.state with
  | idle => rfl
  | done => exact absurd hst hd
  | _ => rw [ModbusExecutor.busy, hst] at hb; cases hb

/-! ## Every step keeps it -/

section
variable {w w' : World}

/-- What Sound reads of the manager, unchanged. -/
structure SameCycle (g g' : EmergencyManager) : Prop where
  state : g'.state = g.state
  walkFromStart : g'.walkFromStart = g.walkFromStart
  currentKey : g'.currentKey = g.currentKey
  sets : g'.store.sets = g.store.sets

theorem SameCycle.refl (g : EmergencyManager) : SameCycle g g := ⟨rfl, rfl, rfl, rfl⟩

/-- A step the cycle does not notice. -/
theorem Sound.same (hw : Sound w) (manager : SameCycle w.manager w'.manager)
    (idle : w'.executor.state = .idle ↔ w.executor.state = .idle)
    (emergency : w'.executor.header.emergency = w.executor.header.emergency)
    (pending : w'.pending = w.pending)
    (taken : w'.stage = .dispatch → w'.executor.state ≠ .done)
    (opening : w'.stage ≠ .dispatch → w.manager.state = .queued →
      w.manager.walkFromStart = true) : Sound w' := by
  refine ⟨taken, fun hd hq => ?_, fun hx => ?_, fun hq hf => ?_, ?_, fun hx => ?_, ?_⟩
  · rw [manager.walkFromStart]
    exact opening hd (manager.state ▸ hq)
  · rw [manager.walkFromStart]
    exact hw.walking (manager.state ▸ hx)
  · rw [manager.state] at hq
    rw [manager.walkFromStart] at hf
    rw [idle, EmergencyManager.nextEntry, manager.walkFromStart, manager.sets, manager.currentKey]
    exact hw.nextSet hq hf
  · rw [manager.state, ne_eq, idle, emergency]
    exact hw.owner
  · rw [manager.state] at hx ⊢
    rw [manager.sets]
    exact hw.emptiness hx
  · rw [pending]
    exact hw.cloud

/-- Log hook, gates and stages in which nothing happened. -/
theorem Sound.quiet {b : UInt32} (hw : Sound w)
    (executor : w'.executor = { w.executor with baudRateHint := b })
    (manager : w'.manager = w.manager) (pending : w'.pending = w.pending)
    (stage : (w.stage ≠ .dispatch ∧ w'.stage ≠ .dispatch) ∨ w'.stage = w.stage ∨
      (w.stage = .poll ∧ w'.stage = .dispatch ∧ w.executor.hasResult = false) ∨
      (w.stage = .dispatch ∧ w'.stage = .execute ∧
        (w.executor.busy = true ∨ w.manager.state ≠ .queued))) : Sound w' := by
  have hstate : w'.executor.state = w.executor.state := by rw [executor]
  refine hw.same (by rw [manager]; exact .refl _) (by rw [hstate]) (by rw [executor]) pending
    (fun hd => ?_) fun hd hq => ?_
  · rw [hstate]
    rcases stage with ⟨-, h⟩ | h | ⟨-, -, h⟩ | ⟨-, h, -⟩
    · exact absurd hd h
    · exact hw.taken (h ▸ hd)
    · simpa [ModbusExecutor.hasResult] using h
    · rw [h] at hd
      cases hd
  · rcases stage with ⟨h, -⟩ | h | ⟨-, h, -⟩ | ⟨-, -, h⟩
    · exact hw.opening h hq
    · exact hw.opening (h ▸ hd) hq
    · exact absurd h hd
    · -- a cycle that has to go on finds the executor free and is dispatched
      cases hwalk : w.manager.walkFromStart with
      | true => rfl
      | false =>
          obtain ⟨hidle, -⟩ := hw.nextSet hq hwalk
          rcases h with h | h
          · rw [ModbusExecutor.busy, hidle] at h
            cases h
          · exact absurd hq h

theorem Sound.message {wall : ESPTime} {header : GbbHeader} (hw : Sound w)
    (hm : Handled c.emergency wall header w.manager w'.manager)
    (executor : w'.executor = w.executor)
    (pending : w'.pending = some header) (cloud : header.emergency = false)
    (stage : w.stage = .outside ∧ w'.stage = .outside) : Sound w' := by
  have hpre : w.stage ≠ .dispatch := by rw [stage.1]; decide
  have hpost : w'.stage ≠ .dispatch := by rw [stage.2]; decide
  refine ⟨fun h => absurd h hpost, fun _ hq => ?_, fun hx => ?_, fun hq hf => ?_, ?_, fun hx => ?_,
    fun h hp => ?_⟩
  · rw [hm.walkFromStart]
    exact hw.opening hpre (stateAfter_queued _ _ _ (hm.state ▸ hq))
  · rw [hm.walkFromStart]
    rw [hm.state, stateAfter_executing] at hx
    exact hw.walking hx
  · rw [hm.walkFromStart, hw.opening hpre (stateAfter_queued _ _ _ (hm.state ▸ hq))] at hf
    cases hf
  · rw [hm.state, stateAfter_executing, executor]
    exact hw.owner
  · rw [hm.state, ne_eq, stateAfter_executing] at hx
    rw [hm.state, stateAfter_empty _ _ _ hx, ← hm.store.sets]
    split
    · rfl
    · next hl =>
        have hsame : storedBy header w.manager.store = w.manager.store := if_neg hl
        rw [hm.store.sets, hsame]
        exact hw.emptiness hx
  · rw [pending, Option.some.injEq] at hp
    exact hp ▸ cloud

/-- A cycle that goes on after a result has its next set. -/
theorem Sound.handled (hw : Sound w) (hl : Left w.manager w'.manager)
    (idle : w'.executor.state = .idle) (pending : w'.pending = w.pending)
    (stage : w'.stage = .dispatch) : Sound w' := by
  refine ⟨fun _ => by rw [idle]; decide, fun h => absurd stage h, fun h => absurd h hl.state,
    fun hq hf => ⟨idle, ?_⟩, ?_, fun _ => hl.emptied, ?_⟩
  · obtain ⟨entry, he⟩ := hl.goesOn.mp hq
    exact ⟨entry, by rw [EmergencyManager.nextEntry, hf]; exact he⟩
  · exact ⟨fun h => absurd h hl.state, fun h => absurd idle h.1⟩
  · rw [pending]
    exact hw.cloud

theorem Sound.finished (hw : Sound w) (manager : w'.manager = w.manager)
    (emergency : w.executor.header.emergency = false) (idle : w'.executor.state = .idle)
    (pending : w'.pending = w.pending) (stage : w'.stage = .dispatch) : Sound w' := by
  have hx : w.manager.state ≠ .executing := fun h => by
    rw [(hw.owner.mp h).2] at emergency
    cases emergency
  refine ⟨fun _ => by rw [idle]; decide, fun h => absurd stage h, ?_, ?_, ?_, ?_, ?_⟩
  · rw [manager]
    exact hw.walking
  · rw [manager]
    exact fun hq hf => ⟨idle, (hw.nextSet hq hf).2⟩
  · rw [manager]
    exact ⟨fun h => absurd h hx, fun h => absurd idle h.1⟩
  · rw [manager]
    exact hw.emptiness
  · rw [pending]
    exact hw.cloud

theorem Sound.handed (hw : Sound w) {t : Nat} {key : Bytes} {lines : List GbbLine}
    (executor : w'.executor = (w.executor.start t (runHeader key lines)).1)
    (executing : w'.manager.state = .executing) (walking : w'.manager.walkFromStart = false)
    (pending : w'.pending = w.pending) (stage : w'.stage = .execute) : Sound w' := by
  have hpost : w'.stage ≠ .dispatch := by rw [stage]; decide
  have hstate : w'.executor.state ≠ .idle := by
    rw [executor]
    rcases ModbusExecutor.start_state t (runHeader key lines) w.executor with h | h <;>
      rw [h] <;> decide
  have hem : w'.executor.header.emergency = true := by
    rw [executor, (ModbusExecutor.start_sameRequest t _ _).emergency]
    rfl
  refine ⟨fun h => absurd h hpost, fun _ h => ?_, fun _ => walking, fun h => ?_,
    ⟨fun _ => ⟨hstate, hem⟩, fun _ => executing⟩, fun h => absurd executing h, ?_⟩
  · rw [executing] at h
    cases h
  · rw [executing] at h
    cases h
  · rw [pending]
    exact hw.cloud

/-- A request is started only where no set waits. -/
theorem Sound.started (hw : Sound w) {t : Nat} {header : GbbHeader}
    (idle : w.executor.state = .idle) (queued : w.manager.state ≠ .queued)
    (waiting : w.pending = some header) (executor : w'.executor = (w.executor.start t header).1)
    (manager : w'.manager = w.manager) (pending : w'.pending = none)
    (stage : w'.stage = .execute) : Sound w' := by
  have hpost : w'.stage ≠ .dispatch := by rw [stage]; decide
  have hx : w.manager.state ≠ .executing := hw.not_executing_of_idle idle
  have hem : w'.executor.header.emergency = false := by
    rw [executor, (ModbusExecutor.start_sameRequest t _ _).emergency]
    exact hw.cloud header waiting
  refine ⟨fun h => absurd h hpost, fun _ h => ?_, ?_, fun h => ?_, ?_, ?_, fun h hp => ?_⟩
  · rw [manager] at h
    exact absurd h queued
  · rw [manager]
    exact hw.walking
  · rw [manager] at h
    exact absurd h queued
  · rw [manager, hem]
    exact ⟨fun h => absurd h hx, fun h => absurd h.2 Bool.false_ne_true⟩
  · rw [manager]
    exact hw.emptiness
  · rw [pending] at hp
    cases hp

theorem Sound.checked (hw : Sound w) (hkeep : Kept w.manager w'.manager)
    (executor : w'.executor = w.executor) (pending : w'.pending = w.pending)
    (stage : w.stage = .emergency ∧ w'.stage = .outside) : Sound w' := by
  have hpre : w.stage ≠ .dispatch := by rw [stage.1]; decide
  have hpost : w'.stage ≠ .dispatch := by rw [stage.2]; decide
  have hopens : w'.manager.state = .queued → w'.manager.walkFromStart = true := fun hq => by
    rcases hkeep.queued hq with h | h
    · exact h
    · exact h.2.trans (hw.opening hpre h.1)
  refine ⟨fun h => absurd h hpost, fun _ => hopens, fun hx => ?_, fun hq hf => ?_, ?_, fun hx => ?_,
    ?_⟩
  · have hx' := hkeep.executing.mp hx
    exact (hkeep.walking hx').trans (hw.walking hx')
  · rw [hopens hq] at hf
    cases hf
  · rw [executor]
    exact hkeep.executing.trans hw.owner
  · rw [hkeep.store]
    exact hkeep.empty (hw.emptiness fun h => hx (hkeep.executing.mpr h))
  · rw [pending]
    exact hw.cloud

end

theorem Sound.step {m : Moment} (hm : StepCase P c m) (hw : Sound m.pre) : Sound m.post := by
  cases hm with
  | quiet b executor manager pending flash evs stage =>
      exact hw.quiet executor manager pending stage
  | message payload wall o header act parsed executor manager pending flash persist evs stage =>
      have hm := handleFields_handled P c.emergency wall o header m.pre.manager m.pre.flash
      rw [← manager] at hm
      exact hw.message hm executor pending (acceptedHeader_emergency parsed) stage
  | toggled on o act executor manager pending flash persist evs stage =>
      have hpre : m.pre.stage ≠ .dispatch := by rw [stage.1]; decide
      have hpost : m.post.stage ≠ .dispatch := by rw [stage.2]; decide
      refine hw.same ?_ (by rw [executor]) (by rw [executor]) pending (fun h => absurd h hpost)
        fun _ => hw.opening hpre
      rw [manager]
      exact ⟨rfl, rfl, rfl, EmergencyStore.setPersistEnabled_sets ..⟩
  | handled t info wait o act result emergency executor manager pending flash persist evs stage =>
      have hl := handleResult_left P c.emergency t o m.pre.executor.header m.pre.manager m.pre.flash
      rw [← manager] at hl
      exact hw.handled hl (by rw [executor]; rfl) pending stage.2
  | finished info wait o act result emergency executor manager pending flash evs stage =>
      exact hw.finished manager emergency (by rw [executor]; rfl) pending stage.2
  | handed t key lines free queued next executor manager pending flash evs stage =>
      exact hw.handed executor (by rw [manager]) (by rw [manager]) pending stage.2
  | strayed free queued next =>
      obtain ⟨entry, he⟩ := hw.nextEntry queued
      rw [next] at he
      cases he
  | started t header free queued waiting executor manager pending flash evs stage =>
      exact hw.started (hw.idle_of_free stage.1 free) queued waiting executor manager pending
        stage.2
  | executed rx wait₁ wait₂ wait₃ t₁ t₂ t₃ act executor manager pending flash evs stage =>
      have hpre : m.pre.stage ≠ .dispatch := by rw [stage.1]; decide
      have hpost : m.post.stage ≠ .dispatch := by rw [stage.2]; decide
      refine hw.same (by rw [manager]; exact .refl _) ?_ ?_ pending (fun h => absurd h hpost)
        fun _ => hw.opening hpre
      · rw [executor, ModbusExecutor.loop_state_idle]
      · rw [executor]
        exact (ModbusExecutor.loop_sameRequest c.bus rx t₁ t₂ t₃ m.pre.executor).emergency
  | checked wait₁ wait₂ t wall lastCheck act due executor check pending flash stage =>
      have hkeep : Kept m.pre.manager m.post.manager := by
        obtain ⟨h1, h2, h3, h4, h5, h6⟩ := check.kept
        exact ⟨h1, h2, h3, h4, h5, h6⟩
      exact hw.checked hkeep executor pending stage

/-- What boot leaves is sound, whatever flash and the switch hold. -/
theorem Sound.setup (P : Platform) (b : BootInput) : Sound (setup P b).1 := by
  have hstate := setup_state P b.nvsSync b.nvsLoad b.persistSwitch b.flash
  generalize hm : (({} : EmergencyManager).setup P b.nvsSync b.nvsLoad b.persistSwitch b.flash).1
    = m at hstate
  have hmanager : (Gbb.setup P b).1.manager = m := hm
  have hnot : m.state ≠ .executing ∧ m.state ≠ .queued := by
    rw [hstate]
    split <;> exact ⟨nofun, nofun⟩
  refine ⟨nofun, fun _ => ?_, ?_, ?_, ?_, fun _ => ?_, nofun⟩
  all_goals rw [hmanager]
  · exact fun h => absurd h hnot.2
  · exact fun h => absurd h hnot.1
  · exact fun h => absurd h hnot.2
  · exact ⟨fun h => absurd h hnot.1, fun h => absurd rfl h.1⟩
  · rw [hstate]
    cases m.store.sets.isEmpty <;> simp

theorem Runs.sound {b : BootInput} {es : List Moment} {w : World}
    (h : Runs P c (setup P b).1 es w) : Sound w :=
  h.invariant (Sound.setup P b) fun _ hm hw => hw.step (step_case hm)

theorem Step.now_le {m : Moment} (h : Step P c m) : m.pre.now ≤ m.post.now := by
  have hpost : m.post = (m.act.perform P c m.pre).1 := congrArg Prod.fst h.2
  rw [hpost]
  exact Nat.le_add_right _ _

/-- A run from boot, with the case and the invariant of every move at hand. -/
theorem Runs.guarded {b : BootInput} {es : List Moment} {w : World}
    (h : Runs P c (setup P b).1 es w) :
    Run (fun m => StepCase P c m ∧ Sound m.pre ∧ Sound m.post ∧ m.pre.now ≤ m.post.now)
      (setup P b).1 es w :=
  (Run.guarded h (Sound.setup P b) fun _ hm hw => hw.step (step_case hm)).mono
    fun _ hm => ⟨step_case hm.1, hm.2.1, hm.2.2, hm.1.now_le⟩

end Gbb
