import GbbDongle.Proofs.Backoff
import GbbDongle.Proofs.Latency

/-!
# A send cycle comes to its end

Each set of a cycle costs its batch and two turns of the loop. The walk over the
store leaves a key behind with every set, so what it has still to do
(`remaining`) shrinks, unless a message stores a set under a key that is yet to
come. A cycle that no message disturbs therefore lasts as many batches as there
are keys, and each message can add one.
-/

namespace Gbb

open History EmergencyManager ModbusExecutor

variable {P : Platform} {c : Config} {m : Moment} {es : List Moment} {w : World} {d : Nat}

/-- The sets a walk has still to go over. -/
def remaining (g : EmergencyManager) : Nat :=
  if g.walkFromStart then g.store.sets.entries.length else g.store.sets.beyond g.currentKey

theorem remaining_nextEntry {g g' : EmergencyManager} {key : Bytes} {lines : List GbbLine}
    (h : g.nextEntry = some (key, lines)) (walk : g'.walkFromStart = false)
    (currentKey : g'.currentKey = key) (sets : g'.store.sets = g.store.sets) :
    remaining g' + 1 = remaining g := by
  rw [remaining, walk, if_neg Bool.false_ne_true, currentKey, sets, remaining]
  rw [nextEntry] at h
  split at h
  · next hw =>
      rw [if_pos hw]
      exact OrdMap.beyond_first? h
  · next hw =>
      rw [if_neg hw]
      exact OrdMap.beyond_upperBound? h

/-- A walk that stands where it stood has no more to do when its sets have not
grown. -/
theorem remaining_le {g g' : EmergencyManager} {n : Nat}
    (walk : g'.walkFromStart = g.walkFromStart) (currentKey : g'.currentKey = g.currentKey)
    (length : g'.store.sets.entries.length ≤ g.store.sets.entries.length + n)
    (beyond : g'.store.sets.beyond g.currentKey ≤ g.store.sets.beyond g.currentKey + n) :
    remaining g' ≤ remaining g + n := by
  rw [remaining, remaining, walk, currentKey]
  split
  · exact length
  · exact beyond

theorem remaining_eq {g g' : EmergencyManager} (walk : g'.walkFromStart = g.walkFromStart)
    (currentKey : g'.currentKey = g.currentKey) (sets : g'.store.sets = g.store.sets) :
    remaining g' = remaining g := by
  rw [remaining, remaining, walk, currentKey, sets]

/-- A message adds one set at most. -/
theorem storedBy_grows (header : GbbHeader) (s : EmergencyStore) (k : Bytes) :
    (storedBy header s).sets.entries.length ≤ s.sets.entries.length + 1 ∧
      (storedBy header s).sets.beyond k ≤ s.sets.beyond k + 1 := by
  rw [storedBy]
  split
  · have hc := EmergencyStore.setLines_case header.setKey header.linesOnNoInvSetup s
    generalize s.setLines header.setKey header.linesOnNoInvSetup = r at hc ⊢
    cases hc with
    | absent | same => exact ⟨Nat.le_succ _, Nat.le_succ _⟩
    | cleared =>
        exact ⟨OrdMap.length_erase_le.trans (Nat.le_succ _),
          OrdMap.beyond_erase_le.trans (Nat.le_succ _)⟩
    | stored => exact ⟨OrdMap.length_insert_le, OrdMap.beyond_insert_le⟩
  · exact ⟨Nat.le_succ _, Nat.le_succ _⟩

/-- While a cycle is under way, only a message gives its walk more to do. -/
theorem StepCase.remaining_le (hm : StepCase P c m) (hcycle : InCycle m.pre.manager)
    (hstill : ¬ Starts m) :
    remaining m.post.manager ≤ remaining m.pre.manager + (acceptedHeaders [m]).length := by
  have hsame : m.post.manager.walkFromStart = m.pre.manager.walkFromStart →
      m.post.manager.currentKey = m.pre.manager.currentKey → m.post.sets = m.pre.sets →
      remaining m.post.manager ≤ remaining m.pre.manager + (acceptedHeaders [m]).length :=
    fun walk currentKey sets =>
      (remaining_eq walk currentKey sets).trans_le (Nat.le_add_right _ _)
  cases hm with
  | quiet b executor manager =>
      rw [manager]
      exact Nat.le_add_right _ _
  | message payload wall o header act parsed executor manager pending flash persist evs =>
      have hone : 1 ≤ (acceptedHeaders [m]).length := by
        refine List.length_pos_of_mem (a := header) ?_
        rw [acceptedHeaders, List.flatMap_singleton, evs]
        simp [acceptedHeaderOf]
      have hh := handleFields_handled P c.emergency wall o header m.pre.manager m.pre.flash
      rw [← manager] at hh
      have hsets : m.post.manager.store.sets = (storedBy header m.pre.manager.store).sets :=
        hh.store.sets
      obtain ⟨hlength, hbeyond⟩ := storedBy_grows header m.pre.manager.store
        m.pre.manager.currentKey
      rw [← hsets] at hlength hbeyond
      exact (Gbb.remaining_le hh.walkFromStart hh.currentKey hlength hbeyond).trans
        (Nat.add_le_add_left hone _)
  | toggled on o act executor manager =>
      refine hsame (by rw [manager]) (by rw [manager]) ?_
      have hsets := congrArg (fun g : EmergencyManager => g.store.sets) manager
      exact hsets.trans EmergencyStore.setPersistEnabled_sets
  | handled t info wait o act result emergency executor manager =>
      have hl := handleResult_left P c.emergency t o m.pre.executor.header m.pre.manager
        m.pre.flash
      rw [← manager] at hl
      rcases hl.sets with hs | hs
      · exact hsame hl.walkFromStart hl.currentKey hs
      · refine (Gbb.remaining_le (n := 0) hl.walkFromStart hl.currentKey ?_ ?_).trans
          (Nat.add_le_add_left (Nat.zero_le _) _)
        · rw [hs]
          exact OrdMap.length_erase_le
        · rw [hs]
          exact OrdMap.beyond_erase_le
  | finished info wait o act result emergency executor manager =>
      rw [manager]
      exact Nat.le_add_right _ _
  | handed t key lines free queued next executor manager pending flash evs =>
      exact absurd ⟨_, by rw [evs]; exact List.mem_cons_self, rfl⟩ hstill
  | strayed free queued next executor manager =>
      have hsets := congrArg (fun g : EmergencyManager => g.store.sets) manager
      exact hsame (by rw [manager]) (by rw [manager]) hsets
  | started t header free queued waiting executor manager pending flash evs =>
      exact absurd ⟨_, by rw [evs]; exact List.mem_cons_self, rfl⟩ hstill
  | executed rx wait₁ wait₂ wait₃ t₁ t₂ t₃ act executor manager =>
      rw [manager]
      exact Nat.le_add_right _ _
  | checked wait₁ wait₂ t wall lastCheck act due executor check =>
      obtain ⟨manager, -⟩ := checkTrigger_still check hcycle.symm
      have hsets := congrArg (fun g : EmergencyManager => g.store.sets) manager
      exact hsame (by rw [manager]) (by rw [manager]) hsets

/-- What one set of a cycle costs at most: its batch, as long as a batch can be,
and two turns of the loop. -/
def setTime (c : Config) (d : Nat) : Nat := maxLinesPerArray * lineTime c.bus d + 2 * d

/-- The walk is due: `n` sets have gone out, the one in hand is over by `T` and
the time of `n` sets, and no more than `R` sets are left to go. -/
def Walks (c : Config) (d T R : Nat) (a : LoopCall) (w : World) : Prop :=
  ∃ n, n + remaining w.manager ≤ R ∧ Turnover c d a (T + n * setTime c d) w

theorem Walks.step {b : BootInput} {T R : Nat} (h : Walks c d T R (lastCall es) m.pre)
    (hrun : Runs P c (setup P b).1 es m.pre) (hm : Timed P c m) (hp : Punctual d (es ++ [m]))
    (hf : InWindow d (es ++ [m])) (hd : c.bus.responseTimeoutMs.toNat + d < 2 ^ 31)
    (hcycle : InCycle m.pre.manager) :
    Walks c d T (R + (acceptedHeaders [m]).length) (lastCall (es ++ [m])) m.post := by
  obtain ⟨n, hn, hturn⟩ := h
  have ht := Runs.timed hrun
  by_cases hstarts : Starts m
  · cases hm.exec with
    | rest b executor call starts => exact absurd hstarts starts
    | taken result executor call finished starts => exact absurd hstarts starts
    | handed t key lines idle queued next executor manager call starts stage time =>
        have hleft : remaining m.post.manager + 1 = remaining m.pre.manager := by
          refine remaining_nextEntry next ?_ ?_ ?_
          all_goals rw [manager]
        have hshort : lines.length ≤ maxLinesPerArray :=
          (Runs.keepsShort hrun).sets key lines (nextEntry_find? next)
        have htime : batchTime c d (runHeader key lines).lines + 2 * d ≤ setTime c d :=
          Nat.add_le_add_right (Nat.mul_le_mul_right _ ((List.length_filter_le _ _).trans hshort)) _
        have hnext := hturn.begun hrun ht hp hf hstarts call idle executor time
        have hmul : (n + 1) * setTime c d = n * setTime c d + setTime c d := Nat.succ_mul _ _
        exact ⟨n + 1, by omega, hnext.mono (by omega)⟩
    | started t header idle queued =>
        rcases hcycle with hq | hx
        · exact absurd hq queued
        · exact absurd hx (hm.sound.not_executing_of_idle idle)
    | called call eq executor starts => exact absurd hstarts starts
  · have hmore := (step_case hm.step).remaining_le hcycle hstarts
    rcases hturn.step hm ht hp hd hstarts with hturn | hfree
    · exact ⟨n, by omega, hturn⟩
    · rcases hcycle with hq | hx
      · exact absurd (hm.dispatches hfree (.inl hq)) hstarts
      · have hidle := hm.sound.idle_of_free hfree.1 hfree.2.2
        exact absurd hx (hm.sound.not_executing_of_idle hidle)

/-- The check that queues a cycle puts the walk at the first set. -/
theorem StepCase.opens {cause : Cause} {r : ESPTime} (hm : StepCase P c m) (hw : Sound m.pre)
    (h : Event.queued cause r ∈ m.evs) :
    m.post.manager.state = .queued ∧ m.post.manager.walkFromStart = true ∧
      ∃ wait₁ wait₂ wall, m.act = .emergency wait₁ wait₂ wall := by
  cases hm.source hw h with
  | bus hk => cases hk
  | flash hk => cases hk
  | link hk => cases hk
  | checked wait₁ wait₂ t wall lastCheck kind act check =>
      refine ⟨?_, ?_, wait₁, wait₂, wall, act⟩
      all_goals
        generalize m.post.manager = g at check ⊢
        generalize m.evs = evs at check h
        cases check with
        | still | emptied => cases h
        | stamped => simp at h
        | hourly | retry => rfl

theorem Walks.turn {a : LoopCall} {T R : Nat} (h : Walks c d T R a w) :
    Turnover c d a (T + R * setTime c d) w := by
  obtain ⟨n, hn, hturn⟩ := h
  have hle : n * setTime c d ≤ R * setTime c d := Nat.mul_le_mul_right _ (by omega)
  exact hturn.mono (by omega)

/-- The walk is due as long as the cycle goes on. -/
theorem Runs.walks {b : BootInput} {before after : List Moment} {cause : Cause} {r : ESPTime}
    (h : Runs P c (setup P b).1 (before ++ m :: after) w)
    (hp : Punctual d (before ++ m :: after)) (hf : InWindow d (before ++ m :: after))
    (hd : c.bus.responseTimeoutMs.toNat + d < 2 ^ 31) (hqueued : Event.queued cause r ∈ m.evs)
    (hcycle : ∀ x ∈ after, InCycle x.post.manager) :
    w.now ≤ (lastCall (before ++ m :: after)).t₁ + d ∧
      Walks c d (m.post.now + (batchTime c d m.post.executor.header.lines + 2 * d))
        (m.post.sets.entries.length + (acceptedHeaders after).length)
        (lastCall (before ++ m :: after)) w := by
  obtain ⟨hbefore, hm, -⟩ := h.at
  have hp₁ := hp
  have hf₁ := hf
  rw [List.append_cons] at hp₁ hf₁
  obtain ⟨hstate, hwalk, wait₁, wait₂, wall, hact⟩ :=
    (step_case hm).opens (Runs.sound hbefore) hqueued
  have houtside : m.post.stage ≠ .execute := by
    have hstage : m.post.stage = m.act.next m.pre.stage := congrArg (fun r => r.1.stage) hm.2
    rw [hstage, hact]
    nofun
  have hturn := Runs.turnover (.snoc hbefore hm) hp₁.of_append hf₁.of_append hd houtside
  generalize hT : m.post.now + (batchTime c d m.post.executor.header.lines + 2 * d) = T at hturn ⊢
  have hall : remaining m.post.manager = m.post.sets.entries.length := if_pos hwalk
  have hwalks := Runs.punctual_since (A := fun a fs u => (∀ x ∈ fs, InCycle x.post.manager) →
    InCycle u.manager ∧
      Walks c d T (m.post.sets.entries.length + (acceptedHeaders fs).length) a u) h hp hf
    (fun _ => ⟨.inl hstate, 0, ?_, ?_⟩) ?_
  · exact ⟨hwalks.1, (hwalks.2 hcycle).2⟩
  · rw [hall, Nat.zero_add]
    exact Nat.le_add_right _ _
  · exact hturn.mono (Nat.le_add_right _ _)
  · intro es fs x hruns hx hp hf ih hcycle
    obtain ⟨hin, hwalks⟩ := ih fun y hy => hcycle y (List.mem_append_left _ hy)
    have hnext := hwalks.step hruns hx hp hf hd hin
    have hcount : (acceptedHeaders (fs ++ [x])).length =
        (acceptedHeaders fs).length + (acceptedHeaders [x]).length := by
      rw [acceptedHeaders, acceptedHeaders, acceptedHeaders, List.flatMap_append,
        List.filterMap_append, List.length_append]
    rw [hcount, ← Nat.add_assoc]
    exact ⟨hcycle x (by simp), hnext⟩

/-- As long as a cycle goes on, it is no older than the batch it found in the
executor and a batch for each set that was stored for it when it began, or may
have been stored since. -/
theorem cycle_ends_in_time {b : BootInput} {before after : List Moment} {cause : Cause}
    {r : ESPTime} (h : Runs P c (setup P b).1 (before ++ m :: after) w)
    (hp : Punctual d (before ++ m :: after)) (hf : InWindow d (before ++ m :: after))
    (hd : c.bus.responseTimeoutMs.toNat + d < 2 ^ 31) (hqueued : Event.queued cause r ∈ m.evs)
    (hcycle : ∀ x ∈ after, InCycle x.post.manager) :
    w.now ≤ m.post.now + (batchTime c d m.post.executor.header.lines + 2 * d) +
      (m.post.sets.entries.length + (acceptedHeaders after).length) * setTime c d := by
  obtain ⟨hnow, hwalks⟩ := Runs.walks h hp hf hd hqueued hcycle
  exact hwalks.turn.now_le hnow

instance (g : EmergencyManager) : Decidable (InCycle g) :=
  inferInstanceAs (Decidable (g.state = .queued ∨ g.state = .executing))

/-- The cycle of the night, with the request that arrives in it, up to its last
reply. -/
theorem cycle_ends_in_time_night :
    ∃ h : 7 < nightRun.length, ∃ w, Runs nightDevice {} (setup nightDevice unplugged).1
        (nightRun.take 7 ++ nightRun[7] :: (nightRun.drop 8).take 32) w ∧
      w.now ≤ 5000 + (0 + 2 * 5000) + (2 + 1) * setTime {} 5000 := by
  have hlen : 7 < nightRun.length := by decide +kernel
  have hqueued : Event.queued .hourly (clockAt 2 20) ∈ nightRun[7].evs := by
    decide +kernel +revert
  have htime : nightRun[7].post.now + (batchTime {} 5000 nightRun[7].post.executor.header.lines +
      2 * 5000) + (nightRun[7].post.sets.entries.length +
        (acceptedHeaders ((nightRun.drop 8).take 32)).length) * setTime {} 5000 =
      5000 + (0 + 2 * 5000) + (2 + 1) * setTime {} 5000 := by
    clear hqueued
    decide +kernel +revert
  have hcycle : ∀ x ∈ (nightRun.drop 8).take 32, InCycle x.post.manager := by decide +kernel
  have hpunctual : Punctual 5000 nightRun := by decide +kernel
  have hwindow : InWindow 5000 nightRun := by decide +kernel
  have hrun : Runs nightDevice {} (setup nightDevice unplugged).1 nightRun _ := performAll_runs rfl
  have hcut : nightRun = nightRun.take 7 ++ nightRun[7] :: (nightRun.drop 8).take 32 ++
      (nightRun.drop 8).drop 32 := by
    rw [List.append_assoc, List.cons_append, List.take_append_drop]
    exact pick_one nightRun 7 hlen
  rw [hcut] at hrun hpunctual hwindow
  obtain ⟨w, hrun, -⟩ := hrun.split
  refine ⟨hlen, w, hrun, ?_⟩
  rw [← htime]
  exact cycle_ends_in_time hrun hpunctual.of_append hwindow.of_append (by decide) hqueued hcycle

end Gbb
