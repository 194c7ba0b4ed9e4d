import GbbDongle.Proofs.CycleTime

/-!
# Every request gets its turn

An alarm takes precedence over a request that waits, and a cycle may have as
many sets as there are inverters. Still no request is put off twice. A cycle
ends where a result is handled, right before the dispatch stage of the same
turn, and only the last stage of a turn queues a cycle; so when a cycle that a
request had to wait for is over, the request is next. `Waits` are the places
in the queue, from behind a cycle that may yet come, through the cycle, to the
head, and each has its instant.
-/

namespace Gbb

open History EmergencyManager ModbusExecutor

variable {P : Platform} {c : Config} {m : Moment} {es : List Moment} {w : World} {d L N : Nat}
  {header : GbbHeader} {b : BootInput} {fs : List Moment}

/-! ## What happens to a cycle while no message comes in -/

/-- What is stored changes at the result of a set alone. -/
theorem StepCase.sets_cases (hm : StepCase P c m) (hw : Sound m.pre)
    (hnewer : ∀ header', Event.accepted header' ∉ m.evs) :
    m.post.sets = m.pre.sets ∨
      (m.pre.manager.state = .executing ∧
        m.post.sets = m.pre.sets.erase m.pre.manager.currentKey) := by
  have hsame {g : EmergencyManager} (hg : m.post.manager = g)
      (hs : g.store.sets = m.pre.manager.store.sets) : m.post.sets = m.pre.sets := by
    show m.post.manager.store.sets = _
    rw [hg]
    exact hs
  cases hm with
  | quiet b executor manager => exact .inl (hsame manager rfl)
  | message payload wall o header act parsed executor manager pending flash persist evs =>
      exact absurd (by rw [evs]; simp) (hnewer header)
  | toggled on o act executor manager =>
      exact .inl (hsame manager EmergencyStore.setPersistEnabled_sets)
  | handled t info wait o act result emergency executor manager =>
      have hl := handleResult_left P c.emergency t o m.pre.executor.header m.pre.manager
        m.pre.flash
      rcases hl.sets with hs | hs
      · exact .inl (hsame manager hs)
      · have hstate : m.pre.manager.state = .executing :=
          hw.owner.mpr ⟨by simp [result], emergency⟩
        rw [← manager] at hs
        exact .inr ⟨hstate, hs⟩
  | finished info wait o act result emergency executor manager => exact .inl (hsame manager rfl)
  | handed t key lines free queued next executor manager => exact .inl (hsame manager rfl)
  | strayed free queued next executor manager => exact .inl (hsame manager rfl)
  | started t header free queued waiting executor manager => exact .inl (hsame manager rfl)
  | executed rx wait₁ wait₂ wait₃ t₁ t₂ t₃ act executor manager => exact .inl (hsame manager rfl)
  | checked wait₁ wait₂ t wall lastCheck act due executor check =>
      exact .inl (hsame rfl (congrArg EmergencyStore.sets check.kept.store))

section
variable (hm : StepCase P c m) (hw : Sound m.pre)
  (hnewer : ∀ header', Event.accepted header' ∉ m.evs)
include hm hw hnewer

theorem StepCase.sets_le : m.post.sets.entries.length ≤ m.pre.sets.entries.length := by
  rcases hm.sets_cases hw hnewer with hs | ⟨-, hs⟩
  · rw [hs]
  · rw [hs]
    exact OrdMap.length_erase_le

/-- A cycle that is queued has all the sets to go over. -/
theorem StepCase.opens_walk (hpre : ¬ InCycle m.pre.manager)
    (hpost : InCycle m.post.manager) :
    remaining m.post.manager = m.post.sets.entries.length := by
  have hsame : m.post.manager.state = m.pre.manager.state →
      remaining m.post.manager = m.post.sets.entries.length := by
    intro hs
    rw [InCycle, hs] at hpost
    exact absurd hpost hpre
  cases hm with
  | quiet b executor manager => exact hsame (by rw [manager])
  | message payload wall o header act parsed executor manager pending flash persist evs =>
      exact absurd (by rw [evs]; simp) (hnewer header)
  | toggled on o act executor manager => exact hsame (by rw [manager])
  | handled t info wait o act result emergency =>
      have hstate : m.pre.manager.state = .executing := hw.owner.mpr ⟨by simp [result], emergency⟩
      exact absurd (.inr hstate) hpre
  | finished info wait o act result emergency executor manager => exact hsame (by rw [manager])
  | handed t key lines free queued => exact absurd (.inl queued) hpre
  | strayed free queued => exact absurd (.inl queued) hpre
  | started t header free queued waiting executor manager => exact hsame (by rw [manager])
  | executed rx wait₁ wait₂ wait₃ t₁ t₂ t₃ act executor manager => exact hsame (by rw [manager])
  | checked wait₁ wait₂ t wall lastCheck act due executor check =>
      show _ = m.post.manager.store.sets.entries.length
      generalize m.post.manager = g at check hsame hpost ⊢
      generalize m.evs = evs at check
      cases check with
      | still | stamped => exact absurd hpost hpre
      | emptied => simp [InCycle] at hpost
      | hourly | retry => exact if_pos rfl

/-- A cycle ends where its result is polled. -/
theorem StepCase.ends_polled (hpre : InCycle m.pre.manager)
    (hpost : ¬ InCycle m.post.manager) :
    m.post.stage = .dispatch ∧ m.post.executor.state = .idle := by
  have hsame : m.post.manager.state = m.pre.manager.state →
      m.post.stage = .dispatch ∧ m.post.executor.state = .idle := by
    intro hs
    rw [InCycle, hs] at hpost
    exact absurd hpre hpost
  cases hm with
  | quiet b executor manager => exact hsame (by rw [manager])
  | message payload wall o header act parsed executor manager pending flash persist evs =>
      exact absurd (by rw [evs]; simp) (hnewer header)
  | toggled on o act executor manager => exact hsame (by rw [manager])
  | handled t info wait o act result emergency executor manager pending flash persist evs stage =>
      refine ⟨stage.2, ?_⟩
      rw [executor]
      rfl
  | finished info wait o act result emergency executor manager => exact hsame (by rw [manager])
  | handed t key lines free queued next executor manager =>
      exact absurd (.inr (by rw [manager])) hpost
  | strayed free queued next =>
      obtain ⟨entry, hentry⟩ := hw.nextEntry queued
      rw [next] at hentry
      cases hentry
  | started t header free queued waiting executor manager => exact hsame (by rw [manager])
  | executed rx wait₁ wait₂ wait₃ t₁ t₂ t₃ act executor manager => exact hsame (by rw [manager])
  | checked wait₁ wait₂ t wall lastCheck act due executor check =>
      obtain ⟨manager, -⟩ := checkTrigger_still check hpre.symm
      exact hsame (by rw [manager])

end

/-! ## The places in the queue -/

/-- A request on its way: behind a cycle that may yet be queued, behind one that
is under way, at the head of the queue, or at work. Up to `L₁` it may wait, by
`L₂` it is answered. -/
inductive Waits (c : Config) (d : Nat) (a : LoopCall) (header : GbbHeader) (N L₁ L₂ : Nat)
    (fs : List Moment) (w : World) : Prop
  | behind (pends : Pends header fs w) (clear : ¬ InCycle w.manager)
      (sets : w.sets.entries.length ≤ N) (T : Nat) (turn : Turnover c d a T w)
      (le : T + N * setTime c d ≤ L₁)
  | cycle (pends : Pends header fs w) (under : InCycle w.manager)
      (T : Nat) (walks : Walks c d T N a w) (le : T + N * setTime c d ≤ L₁)
  | head (pends : Pends header fs w) (stage : w.stage = .dispatch)
      (idle : w.executor.state = .idle) (clear : ¬ InCycle w.manager) (turn : Turnover c d a L₁ w)
  | atWork (work : AtWork c d a header L₂ w)

theorem AtWork.mono {a : LoopCall} {L' : Nat} (h : AtWork c d a header L w) (hle : L ≤ L') :
    AtWork c d a header L' w := ⟨h.same, h.cloud, h.state, h.turn.mono hle⟩

theorem Waits.turn {a : LoopCall} {L₁ L₂ : Nat} (h : Waits c d a header N L₁ L₂ fs w)
    (hle : L₁ ≤ L₂) : Turnover c d a L₂ w := by
  cases h with
  | behind pends clear sets T turn le => exact turn.mono (by omega)
  | cycle pends under T walks le => exact walks.turn.mono (by omega)
  | head pends stage idle clear turn => exact turn.mono hle
  | atWork work => exact work.turn

/-- In the dispatch stage nothing but the log comes before the dispatch. -/
theorem Timed.still_head (hm : Timed P c m) (hstage : m.pre.stage = .dispatch)
    (hidle : m.pre.executor.state = .idle) (hwork : HasWork m.pre) (hstill : ¬ Starts m) :
    m.post.stage = .dispatch ∧ m.post.executor.state = .idle ∧
      m.post.manager = m.pre.manager := by
  have hfits := hm.step.1
  have hpost : m.post = (m.act.perform P c m.pre).1 := congrArg Prod.fst hm.step.2
  cases hact : m.act with
  | log level line =>
      rw [hpost, hact]
      exact ⟨hstage, hidle, rfl⟩
  | dispatch wait =>
      have hnext : m.post.stage = .execute := by
        rw [hpost, hact]
        rfl
      exact absurd (hm.dispatches ⟨hstage, hnext, busy_eq_false (.inl hidle)⟩ hwork) hstill
  | _ =>
      rw [hact, hstage] at hfits
      cases hfits

theorem not_started (h : ¬ Starts m) (header' : GbbHeader) : Event.started header' ∉ m.evs :=
  fun hev => h ⟨_, hev, rfl⟩

/-- A cycle keeps the bus to itself. -/
theorem StepCase.not_started_in_cycle (hm : StepCase P c m) (hw : Sound m.pre)
    (hcycle : InCycle m.pre.manager) (header' : GbbHeader) : Event.started header' ∉ m.evs := by
  intro hev
  cases hm.source hw hev with
  | started t header' idle queued =>
      rcases hcycle with hq | hx
      · exact queued hq
      · exact hw.not_executing_of_idle idle hx
  | bus hk => cases hk
  | flash hk => cases hk
  | checked _ _ _ _ _ hk => cases hk
  | link hk => cases hk

theorem Waits.step {L₁ L₂ : Nat} (h : Waits c d (lastCall es) header N L₁ L₂ fs m.pre)
    (hL : L₂ = L₁ + (batchTime c d header.lines + 2 * d))
    (hrun : Runs P c (setup P b).1 es m.pre) (hm : Timed P c m) (hp : Punctual d (es ++ [m]))
    (hf : InWindow d (es ++ [m])) (hd : c.bus.responseTimeoutMs.toNat + d < 2 ^ 31)
    (hnewer : (∀ y ∈ fs, Event.started header ∉ y.evs) →
      ∀ header', Event.accepted header' ∉ m.evs) :
    Waits c d (lastCall (es ++ [m])) header N L₁ L₂ (fs ++ [m]) m.post ∨ Replies P c header m := by
  have ht := Runs.timed hrun
  have hcase := step_case hm.step
  cases h with
  | behind pends clear sets T turn le =>
      have hnewer := hnewer pends.unstarted
      by_cases hstarts : Starts m
      · have hwork := hm.takes_pending hrun hp hf pends.waiting turn hstarts
          fun hq => clear (.inl hq)
        exact .inl (.atWork (hwork.mono (by omega)))
      · have hwaits := hm.keeps_pending pends (not_started hstarts) hnewer
        have hsets := (hcase.sets_le hm.sound hnewer).trans sets
        rcases turn.step hm ht hp hd hstarts with hturn | hidle
        · by_cases hopens : InCycle m.post.manager
          · have hall := hcase.opens_walk hm.sound hnewer clear hopens
            refine .inl (.cycle hwaits hopens T ⟨0, by omega, ?_⟩ le)
            rw [Nat.zero_mul, Nat.add_zero]
            exact hturn
          · exact .inl (.behind hwaits hopens hsets T hturn le)
        · exact absurd (hm.dispatches hidle (.inr ⟨header, pends.waiting⟩)) hstarts
  | cycle pends under T walks le =>
      have hnewer := hnewer pends.unstarted
      have hnone : (acceptedHeaders [m]).length = 0 := by
        rw [acceptedHeaders, List.flatMap_singleton, List.length_eq_zero_iff,
          List.filterMap_eq_nil_iff]
        intro ev hev
        cases ev <;> first | rfl | exact absurd hev (hnewer _)
      have hnext := walks.step hrun hm hp hf hd under
      rw [hnone, Nat.add_zero] at hnext
      have hwaits := hm.keeps_pending pends (hcase.not_started_in_cycle hm.sound under) hnewer
      by_cases hends : InCycle m.post.manager
      · exact .inl (.cycle hwaits hends T hnext le)
      · obtain ⟨hstage, hidle⟩ := hcase.ends_polled hm.sound hnewer under hends
        exact .inl (.head hwaits hstage hidle hends (hnext.turn.mono le))
  | head pends stage idle clear turn =>
      have hnewer := hnewer pends.unstarted
      by_cases hstarts : Starts m
      · have hwork := hm.takes_pending hrun hp hf pends.waiting turn hstarts
          fun hq => clear (.inl hq)
        exact .inl (.atWork (hwork.mono (by omega)))
      · have hwaits := hm.keeps_pending pends (not_started hstarts) hnewer
        obtain ⟨hstage, hidle, hmanager⟩ :=
          hm.still_head stage idle (.inr ⟨header, pends.waiting⟩) hstarts
        rcases turn.step hm ht hp hd hstarts with hturn | hfree
        · refine .inl (.head hwaits hstage hidle ?_ hturn)
          rw [hmanager]
          exact clear
        · exact absurd (hm.dispatches hfree (.inr ⟨header, pends.waiting⟩)) hstarts
  | atWork work =>
      rcases work.step ht hm hp hd with hwork | hreply
      · exact .inl (.atWork hwork)
      · exact .inr hreply

theorem remaining_le_length (g : EmergencyManager) :
    remaining g ≤ g.store.sets.entries.length := by
  rw [remaining]
  split
  · exact Nat.le_refl _
  · exact List.countP_le_length

/-- Every cloud request that no newer one replaces while it is pending is
answered, whatever the manager is at: within the time of the batch it finds in
the executor, of one cycle over the sets that are stored, of its own batch, and
of four turns of the loop. -/
theorem every_request_answered {before after : List Moment}
    (h : Runs P c (setup P b).1 (before ++ m :: after) w)
    (hp : Punctual d (before ++ m :: after)) (hf : InWindow d (before ++ m :: after))
    (hd : c.bus.responseTimeoutMs.toNat + d < 2 ^ 31) (hacc : arrived P m = some header)
    (hnewer : ∀ x, BeforeStart header after x → arrived P x = none)
    (hlate : m.post.now + (batchTime c d m.post.executor.header.lines +
      m.post.sets.entries.length * setTime c d + batchTime c d header.lines + 4 * d) < w.now) :
    ∃ x ∈ after, Replies P c header x := by
  obtain ⟨hbefore, hm, -⟩ := h.at
  have hp₁ := hp
  have hf₁ := hf
  rw [List.append_cons] at hp₁ hf₁
  obtain ⟨hpends, hturn⟩ :=
    Runs.begins_waiting hbefore hm hacc hp₁.of_append hf₁.of_append hd
  generalize hT : m.post.now + (batchTime c d m.post.executor.header.lines + 2 * d) = T at hturn
  generalize hN : m.post.sets.entries.length = N at hlate
  generalize hL₂ : T + N * setTime c d + (batchTime c d header.lines + 2 * d) = L₂
  have hstart : Waits c d (lastCall (before ++ [m])) header N (T + N * setTime c d) L₂ []
      m.post := by
    by_cases hcycle : InCycle m.post.manager
    · have hleft := remaining_le_length m.post.manager
      refine .cycle hpends hcycle T ⟨0, ?_, ?_⟩ (Nat.le_refl _)
      · rw [Nat.zero_add]
        exact hN ▸ hleft
      · rw [Nat.zero_mul, Nat.add_zero]
        exact hturn
    · exact .behind hpends hcycle (Nat.le_of_eq hN) T hturn (Nat.le_refl _)
  have hall := Runs.awaits
    (A := fun a fs u => Waits c d a header N (T + N * setTime c d) L₂ fs u) h hp hf hstart
    (fun es fs x hruns hx hp hf hnewer hwaits => hwaits.step hL₂.symm hruns hx hp hf hd
      fun hno => hx.not_accepted (hnewer hno)) hnewer
  rcases hall with ⟨hnow, hwaits⟩ | hreply
  · have hin := (hwaits.turn (by omega)).now_le hnow
    omega
  · exact hreply

/-- A request arrives while a set is sent to an inverter that does not answer. -/
def patientDevice : Platform :=
  bench [keepDoc 1 "A" "01060001000259CB", requestDoc "7" "01030204000345B2"]

def patientRun : List Moment × World :=
  performAll patientDevice {}
    ([arrives (keepDoc 1 "A" "01060001000259CB") (clockAt 0 0)] ++
      callAfter 20000 [] (clockAt 2 20) ++ callAfter 20000 [] (clockAt 2 20) ++
      [arrives (requestDoc "7" "01030204000345B2") (clockAt 2 20)] ++
      (List.replicate 122 (callAfter 20000 [] (clockAt 2 20))).flatten)
    (setup patientDevice unplugged).1

theorem every_request_answered_patient :
    ∃ x ∈ patientRun.1.drop 14, Replies patientDevice {} lonelyHeader x := by
  have hlen : 13 < patientRun.1.length := by decide +kernel
  have hacc : arrived patientDevice patientRun.1[13] = some lonelyHeader := by
    decide +kernel +revert
  have hlate : patientRun.1[13].post.now + (batchTime {} 20000
      patientRun.1[13].post.executor.header.lines + patientRun.1[13].post.sets.entries.length *
        setTime {} 20000 + batchTime {} 20000 lonelyHeader.lines + 4 * 20000) <
      patientRun.2.now := by
    clear hacc
    decide +kernel +revert
  have hrun : Runs patientDevice {} (setup patientDevice unplugged).1 patientRun.1 patientRun.2 :=
    performAll_runs (by decide +kernel)
  have hpunctual : Punctual 20000 patientRun.1 := by decide +kernel
  have hwindow : InWindow 20000 patientRun.1 := by decide +kernel
  have hnewer : ∀ x ∈ patientRun.1.drop 14, arrived patientDevice x = none := by
    decide +kernel
  have hcut := pick_one patientRun.1 13 hlen
  rw [hcut] at hrun hpunctual hwindow
  exact every_request_answered hrun hpunctual hwindow (by decide) hacc
    (fun x hx => hnewer x hx.mem) hlate

end Gbb
