import GbbDongle.Proofs.Bench
import GbbDongle.Proofs.Events

/-!
# The gap between two commands

`gap_until_` is a stamp of the wrapping clock, set when a command ends and
looked at when the next frame is due. Read as an instant of real time it is the
last deadline a run has assigned, and the signed comparison is about real time
as long as the two are less than half a wrap apart. In one direction that is
always so: a frame is never early, because a deadline lies at most a gap ahead
of the call that set it. In the other direction nothing bounds the distance,
and a batch that starts late enough is parked.
-/

namespace Gbb

open History Wrap ModbusExecutor

variable {P : Platform} {c : Config} {m : Moment} {es : List Moment} {w : World}

/-! ## The last deadline -/

/-- `gap_until_` in real time, after an event. -/
def Event.deadline (g : Nat) : Event → Nat
  | .gapUntil d => d
  | _ => g

/-- The last value assigned to `gap_until_`, in real time; zero, as at boot,
when there has been none. -/
def lastGap (es : List Moment) : Nat := (es.flatMap Move.evs).foldl Event.deadline 0

theorem foldl_deadline_of_silent {evs : List Event} (h : ∀ ev ∈ evs, ev.kind ≠ .bus) (g : Nat) :
    evs.foldl Event.deadline g = g := by
  induction evs with
  | nil => rfl
  | cons ev evs ih =>
      rw [List.foldl_cons]
      have hev : ev.deadline g = g := by
        have := h ev (by simp)
        cases ev <;> first | rfl | exact absurd rfl this
      rw [hev]
      exact ih fun x hx => h x (by simp [hx])

theorem startNextLine_gapUntil {g : Nat} {t : Nat} {e : ModbusExecutor}
    (h : e.gapUntil = millis g) :
    (e.startNextLine t).1.gapUntil = millis ((e.startNextLine t).2.foldl Event.deadline g) := by
  have hc := startNextLine_case t e
  generalize e.startNextLine t = r at hc ⊢
  cases hc with
  | finished => exact h
  | badHex => exact failLine_gapUntil _ _ _
  | ready => exact h

theorem loop_gapUntil {b : BusConfig} {rx : Bytes} {t₁ t₂ t₃ g : Nat} {e : ModbusExecutor}
    (h : e.gapUntil = millis g) :
    (e.loop b rx t₁ t₂ t₃).1.gapUntil =
      millis ((e.loop b rx t₁ t₂ t₃).2.foldl Event.deadline g) := by
  have hc := loop_case b rx t₁ t₂ t₃ e
  generalize e.loop b rx t₁ t₂ t₃ = r at hc ⊢
  cases hc with
  | rest => exact h
  | sent => exact h
  | listening => exact h
  | failed => exact failLine_gapUntil _ _ _
  | accepted frame at' hs =>
      have hset : ((e.withRx frame at').settleLine t₂).gapUntil = millis (t₂ + e.nextGapMs.toNat) :=
        millis_add _ _
      exact startNextLine_gapUntil hset

/-- The stamp is the last deadline, whatever has been assigned to it. -/
theorem Runs.gapUntil {b : BootInput} (h : Runs P c (setup P b).1 es w) :
    w.executor.gapUntil = millis (lastGap es) := by
  refine h.guarded.history (H := fun es w => w.executor.gapUntil = millis (lastGap es)) rfl ?_
  intro es m _ ih hm
  rw [lastGap, List.flatMap_append, List.foldl_append, List.flatMap_singleton]
  show _ = millis (m.evs.foldl Event.deadline (lastGap es))
  cases hm.1.bus hm.2.1 with
  | rest executor silent =>
      rw [foldl_deadline_of_silent silent]
      rcases executor with ⟨b, executor⟩ | ⟨-, executor⟩ <;> rw [executor] <;> exact ih
  | start t header first notBus idle executor evs time =>
      have hfirst : first.deadline (lastGap es) = lastGap es := by
        cases first <;> first | rfl | exact absurd rfl notBus
      rw [executor, evs, List.foldl_cons, hfirst]
      exact startNextLine_gapUntil ih
  | loop rx t₁ t₂ t₃ executor evs time =>
      rw [executor, evs]
      exact loop_gapUntil ih

/-- The executor writes a frame. -/
def Writes (m : Moment) : Prop := ∃ t frame, Event.wrote t frame ∈ m.evs

instance (m : Moment) : Decidable (Writes m) :=
  decidable_of_iff (m.evs.any fun | .wrote _ _ => true | _ => false) <| by
    rw [List.any_eq_true]
    constructor
    · rintro ⟨ev, hmem, hev⟩
      split at hev
      · exact ⟨_, _, hmem⟩
      · cases hev
    · rintro ⟨t, frame, hmem⟩
      exact ⟨_, hmem, rfl⟩

/-! ## Leaving the gap -/

/-- The call that `m` is at real time `t` sends the current frame. -/
def LeavesGap (m : Moment) (t : Nat) : Prop :=
  Event.wrote t m.pre.executor.txFrame ∈ m.evs ∧ m.post.executor.state ≠ .gap

theorem leavesGap_iff (hm : Step P c m) {rx : Bytes} {wait₁ wait₂ wait₃ : Nat}
    (hact : m.act = .execute rx wait₁ wait₂ wait₃) (hs : m.pre.executor.state = .gap) :
    LeavesGap m (m.pre.now + wait₁) ↔
      reached (millis (m.pre.now + wait₁)) m.pre.executor.gapUntil = true := by
  have hpost := hm.2
  rw [hact] at hpost
  have hexecutor : m.post.executor = (m.pre.executor.loop c.bus rx (m.pre.now + wait₁)
      (m.pre.now + wait₁ + wait₂) (m.pre.now + wait₁ + wait₂ + wait₃)).1 :=
    congrArg (fun r => r.1.executor) hpost
  have hevs : m.evs = (m.pre.executor.loop c.bus rx (m.pre.now + wait₁)
      (m.pre.now + wait₁ + wait₂) (m.pre.now + wait₁ + wait₂ + wait₃)).2 :=
    congrArg Prod.snd hpost
  rw [LeavesGap, hexecutor, hevs, ModbusExecutor.loop, hs]
  dsimp only
  by_cases hr : reached (millis (m.pre.now + wait₁)) m.pre.executor.gapUntil = true
  · rw [if_pos hr]
    simp [transmitCurrent, hr]
  · rw [if_neg hr]
    simp [hs, hr]

/-- A call in GAP at or after the last deadline sends its frame exactly while
the time gone by since, modulo the wrap, is less than half a wrap. -/
theorem leavesGap_iff_lt_half_wrap {b : BootInput} (h : Runs P c (setup P b).1 (es ++ [m]) w)
    {rx : Bytes} {wait₁ wait₂ wait₃ : Nat} (hact : m.act = .execute rx wait₁ wait₂ wait₃)
    (hs : m.pre.executor.state = .gap) (hdue : lastGap es ≤ m.pre.now + wait₁) :
    LeavesGap m (m.pre.now + wait₁) ↔ (m.pre.now + wait₁ - lastGap es) % 2 ^ 32 < 2 ^ 31 := by
  obtain ⟨hrun, hm, -⟩ := h.at
  rw [leavesGap_iff hm hact hs, Runs.gapUntil hrun, reached_of_le hdue]

/-- A device that has been idle since boot gets its first request after `n`
milliseconds. -/
def firstRequest (n : Nat) : List Act :=
  [arrives (requestDoc "1" "01030204000345B2") (clockAt 0 0), .enter false, .poll n [] .ok,
    .dispatch 0]

def firstDevice : Platform := bench [requestDoc "1" "01030204000345B2"]

def firstRun (n : Nat) : List Moment × World :=
  performAll firstDevice {} (firstRequest n) (setup firstDevice unplugged).1

/-- The call of the executor's loop that comes next. -/
def firstCall (n : Nat) : Moment :=
  let r := Act.perform firstDevice {} (.execute [] 0 0 0) (firstRun n).2
  ⟨(firstRun n).2, .execute [] 0 0 0, r.2, r.1⟩

theorem firstRun_runs (n : Nat) :
    Runs firstDevice {} (setup firstDevice unplugged).1 ((firstRun n).1 ++ [firstCall n])
      (firstCall n).post :=
  .snoc (performAll_runs rfl) ⟨rfl, rfl⟩

/-- A millisecond before half a wrap the first request still goes out. -/
theorem leavesGap_iff_lt_half_wrap_first :
    LeavesGap (firstCall (2 ^ 31 - 1)) ((firstCall (2 ^ 31 - 1)).pre.now + 0) :=
  (leavesGap_iff_lt_half_wrap (firstRun_runs (2 ^ 31 - 1)) rfl (by decide +kernel)
    (by decide +kernel)).mpr (by decide +kernel)

/-- At half a wrap it is parked behind the deadline zero that nobody set. -/
theorem parked_at_half_wrap :
    Runs firstDevice {} (setup firstDevice unplugged).1
        ((firstRun (2 ^ 31)).1 ++ [firstCall (2 ^ 31)]) (firstCall (2 ^ 31)).post ∧
      (firstCall (2 ^ 31)).act = .execute [] 0 0 0 ∧
      (firstCall (2 ^ 31)).pre.executor.state = .gap ∧
      lastGap (firstRun (2 ^ 31)).1 ≤ (firstCall (2 ^ 31)).pre.now ∧
      ¬ LeavesGap (firstCall (2 ^ 31)) (firstCall (2 ^ 31)).pre.now :=
  ⟨firstRun_runs (2 ^ 31), rfl, by decide +kernel, by decide +kernel,
    fun h => h.2 (by decide +kernel)⟩

/-! ## Spacing -/

/-- The end of a transmitted command: its reply, or its failure by timeout, bad
CRC or short reply. Bad hex fails a line that was never sent. -/
def CommandEnd (t : Nat) (ev : Event) : Prop :=
  (∃ line frame, ev = .answered t line frame) ∨ ∃ fault, ev = .failed t fault ∧ fault ≠ .invalidHex

/-- The account since a frame was written: its command is still open, or it has
ended and the deadline covers the gap it needs. -/
inductive Spaced (gap : UInt32) (since : List Event) (w : World) : Prop
  | waiting (state : w.executor.state = .rxWait) (nextGapMs : w.executor.nextGapMs = gap)
      (none' : ∀ t, ∀ ev ∈ since, ¬ CommandEnd t ev)
  | ended (deadline : Nat) (state : w.executor.state ≠ .rxWait)
      (nextGapMs : w.executor.nextGapMs = gap)
      (gapUntil : w.executor.gapUntil = millis deadline)
      (near : deadline ≤ w.now + gap.toNat)
      (some' : ∃ t, ∃ ev ∈ since, CommandEnd t ev)
      (covers : ∀ t, ∀ ev ∈ since, CommandEnd t ev → t ≤ w.now ∧ t + gap.toNat ≤ deadline)

theorem not_commandEnd_of_kind {t : Nat} {ev : Event} (h : ev.kind ≠ .bus) : ¬ CommandEnd t ev := by
  rintro (⟨line, frame, rfl⟩ | ⟨fault, rfl, -⟩) <;> exact h rfl

/-- `start_next_line_` keeps the deadline, or puts a whole gap after bad hex. -/
theorem startNextLine_deadline {gap : UInt32} {t d : Nat} {e : ModbusExecutor}
    (hgap : e.nextGapMs = gap) (hd : e.gapUntil = millis d) :
    (e.startNextLine t).1.state ≠ .rxWait ∧ (e.startNextLine t).1.nextGapMs = gap ∧
      (∃ d', (e.startNextLine t).1.gapUntil = millis d' ∧ (d' = d ∨ d' = t + gap.toNat)) ∧
      ∀ t', ∀ ev ∈ (e.startNextLine t).2, ¬ CommandEnd t' ev := by
  have hc := startNextLine_case t e
  generalize e.startNextLine t = r at hc ⊢
  cases hc with
  | finished => exact ⟨nofun, hgap, ⟨d, hd, .inl rfl⟩, by simp⟩
  | ready => exact ⟨nofun, hgap, ⟨d, hd, .inl rfl⟩, by simp⟩
  | badHex =>
      refine ⟨nofun, hgap, ⟨t + gap.toNat, ?_, .inr rfl⟩, fun t' ev hev => ?_⟩
      · rw [failLine_gapUntil]
        exact congrArg (fun g : UInt32 => millis (t + g.toNat)) hgap
      · simp only [failLine_evs, List.mem_cons, List.not_mem_nil, or_false] at hev
        rcases hev with rfl | rfl
        · rintro (⟨_, _, h⟩ | ⟨fault, h, hne⟩)
          · cases h
          · exact hne (Event.failed.inj h).2.symm
        · rintro (⟨_, _, h⟩ | ⟨_, h, -⟩) <;> cases h

/-- A command that ends at `t₂`, and the next line tried at `t₃`. -/
theorem Spaced.of_end {gap : UInt32} {since evs : List Event} {w : World} {t d : Nat}
    (hnone : ∀ t, ∀ ev ∈ since, ¬ CommandEnd t ev) (hstate : w.executor.state ≠ .rxWait)
    (hgap : w.executor.nextGapMs = gap) (hd : w.executor.gapUntil = millis d)
    (hnear : d ≤ w.now + gap.toNat) (htime : t ≤ w.now) (hcover : t + gap.toNat ≤ d)
    (hsome : ∃ ev ∈ evs, CommandEnd t ev)
    (hevs : ∀ t', ∀ ev ∈ evs, CommandEnd t' ev → t' = t) : Spaced gap (since ++ evs) w := by
  obtain ⟨ev, hev, hend⟩ := hsome
  refine .ended d hstate hgap hd hnear ⟨t, ev, List.mem_append_right _ hev, hend⟩ ?_
  intro t' ev' hev' hend'
  rcases List.mem_append.mp hev' with hev' | hev'
  · exact absurd hend' (hnone t' ev' hev')
  · obtain rfl := hevs t' ev' hev' hend'
    exact ⟨htime, hcover⟩

/-- Moves that end no command leave the account as it is. -/
theorem Spaced.quiet {gap : UInt32} {since evs : List Event} {w w' : World} {d : Nat}
    (hstate : w'.executor.state ≠ .rxWait) (hgap : w'.executor.nextGapMs = gap)
    (hd : w'.executor.gapUntil = millis d) (hnear : d ≤ w'.now + gap.toNat)
    (hnow : w.now ≤ w'.now) (hsome : ∃ t, ∃ ev ∈ since, CommandEnd t ev)
    (hcovers : ∀ t, ∀ ev ∈ since, CommandEnd t ev → t ≤ w.now ∧ t + gap.toNat ≤ d)
    (hevs : ∀ t, ∀ ev ∈ evs, ¬ CommandEnd t ev) : Spaced gap (since ++ evs) w' := by
  obtain ⟨t, ev, hev, hend⟩ := hsome
  refine .ended d hstate hgap hd hnear ⟨t, ev, List.mem_append_left _ hev, hend⟩ ?_
  intro t' ev' hev' hend'
  rcases List.mem_append.mp hev' with hev' | hev'
  · obtain ⟨h1, h2⟩ := hcovers t' ev' hev' hend'
    exact ⟨h1.trans hnow, h2⟩
  · exact absurd hend' (hevs t' ev' hev')

section
variable {gap : UInt32} {since evs : List Event} {w' : World}

/-- A move that is nothing to the bus but may take the result. -/
theorem Spaced.rest (h : Spaced gap since w) (hnow : w.now ≤ w'.now)
    (executor : (∃ b, w'.executor = { w.executor with baudRateHint := b }) ∨
      (w.executor.state = .done ∧ w'.executor = w.executor.takeResult.2))
    (hnone : ∀ t, ∀ ev ∈ evs, ¬ CommandEnd t ev) : Spaced gap (since ++ evs) w' := by
  have hstamps : w'.executor.gapUntil = w.executor.gapUntil ∧
      w'.executor.nextGapMs = w.executor.nextGapMs := by
    rcases executor with ⟨b, h⟩ | ⟨-, h⟩ <;> rw [h] <;> exact ⟨rfl, rfl⟩
  have hstate' : w'.executor.state = w.executor.state ∨
      (w.executor.state = .done ∧ w'.executor.state = .idle) := by
    rcases executor with ⟨b, h⟩ | ⟨hd, h⟩
    · exact .inl (by rw [h])
    · exact .inr ⟨hd, by rw [h]; rfl⟩
  cases h with
  | waiting hstate hgap hopen =>
      refine .waiting ?_ (hstamps.2.trans hgap) fun t ev hev => ?_
      · rcases hstate' with hs | ⟨hs, -⟩
        · exact hs.trans hstate
        · rw [hstate] at hs
          cases hs
      · rcases List.mem_append.mp hev with hev | hev
        · exact hopen t ev hev
        · exact hnone t ev hev
  | ended d hstate hgap hd hnear hsome hcovers =>
      refine .quiet ?_ (hstamps.2.trans hgap) (hstamps.1.trans hd) (by omega) hnow hsome
        hcovers hnone
      rcases hstate' with hs | ⟨-, hs⟩
      · rw [hs]
        exact hstate
      · rw [hs]
        decide

/-- A batch that starts keeps the deadline, or sets a later one after bad hex. -/
theorem Spaced.start {t : Nat} {header : GbbHeader} {first : Event} (h : Spaced gap since w)
    (idle : w.executor.state = .idle) (executor : w'.executor = (w.executor.start t header).1)
    (notBus : first.kind ≠ .bus) (time : w.now ≤ t ∧ t ≤ w'.now) :
    Spaced gap (since ++ first :: (w.executor.start t header).2) w' := by
  cases h with
  | waiting hstate =>
      rw [idle] at hstate
      cases hstate
  | ended d hstate hgap hd hnear hsome hcovers =>
      obtain ⟨hs, hg, ⟨d', hd', hcase⟩, hnone⟩ :=
        @startNextLine_deadline gap t d
          { w.executor with header := header, lineIndex := 0, state := .gap } hgap hd
      have hcovers' : ∀ t', ∀ ev ∈ since, CommandEnd t' ev →
          t' ≤ w.now ∧ t' + gap.toNat ≤ d' := by
        intro t' ev hev hend
        obtain ⟨h1, h2⟩ := hcovers t' ev hev hend
        rcases hcase with rfl | rfl
        · exact ⟨h1, h2⟩
        · exact ⟨h1, by omega⟩
      have hnear' : d' ≤ w'.now + gap.toNat := by
        rcases hcase with rfl | rfl <;> omega
      refine .quiet ?_ ?_ ?_ hnear' (by omega) hsome hcovers' fun t' ev hev => ?_
      · rw [executor]
        exact hs
      · rw [executor]
        exact hg
      · rw [executor]
        exact hd'
      · rcases List.mem_cons.mp hev with rfl | hev
        · exact not_commandEnd_of_kind notBus
        · exact hnone t' ev hev

/-- A command that fails ends there, and its gap counts from there. -/
theorem Spaced.failed {frame : Bytes} {at' : UInt32} {t : Nat} {fault : LineFault}
    (hopen : ∀ t, ∀ ev ∈ since, ¬ CommandEnd t ev) (hgap : w.executor.nextGapMs = gap)
    (hfault : fault ≠ .invalidHex) (time : t ≤ w'.now)
    (executor : w'.executor = (failLine t fault (w.executor.withRx frame at')).1) :
    Spaced gap (since ++ (failLine t fault (w.executor.withRx frame at')).2) w' := by
  have hgap' : (w.executor.withRx frame at').nextGapMs = gap := hgap
  have hend : CommandEnd t (.failed t fault) := .inr ⟨fault, rfl, hfault⟩
  have hdue : w'.executor.gapUntil = millis (t + gap.toNat) := by
    rw [executor, failLine_gapUntil, hgap']
  refine .of_end hopen (by rw [executor]; nofun) (by rw [executor]; exact hgap) hdue
    (by omega) (by omega) (Nat.le_refl _) ⟨_, List.mem_cons_self, hend⟩ fun t' ev hev hend' => ?_
  simp only [failLine_evs, List.mem_cons, List.not_mem_nil, or_false] at hev
  rcases hev with rfl | rfl
  · rcases hend' with ⟨_, _, h⟩ | ⟨_, h, -⟩
    · cases h
    · exact (Event.failed.inj h).1.symm
  · rcases hend' with ⟨_, _, h⟩ | ⟨_, h, -⟩ <;> cases h

/-- A command that is answered ends there; the next line may add a gap of its own. -/
theorem Spaced.accepted {frame : Bytes} {at' : UInt32} {t₂ t₃ : Nat} {line : GbbLine}
    (hopen : ∀ t, ∀ ev ∈ since, ¬ CommandEnd t ev) (hgap : w.executor.nextGapMs = gap)
    (time : t₂ ≤ t₃ ∧ t₃ = w'.now)
    (executor : w'.executor =
      (((w.executor.withRx frame at').settleLine t₂).startNextLine t₃).1)
    (hevs : evs = .answered t₂ line frame :: .gapUntil (t₂ + w.executor.nextGapMs.toNat) ::
      (((w.executor.withRx frame at').settleLine t₂).startNextLine t₃).2) :
    Spaced gap (since ++ evs) w' := by
  have hset : ((w.executor.withRx frame at').settleLine t₂).gapUntil =
      millis (t₂ + gap.toNat) := by
    rw [← hgap]
    exact millis_add _ _
  have hgap' : ((w.executor.withRx frame at').settleLine t₂).nextGapMs = gap := hgap
  obtain ⟨hs, hg, ⟨d, hd, hcase⟩, hnone⟩ := @startNextLine_deadline gap t₃ _ _ hgap' hset
  have hcover : t₂ + gap.toNat ≤ d := by rcases hcase with rfl | rfl <;> omega
  have hnear : d ≤ w'.now + gap.toNat := by rcases hcase with rfl | rfl <;> omega
  rw [hevs]
  refine .of_end hopen (by rw [executor]; exact hs) (by rw [executor]; exact hg)
    (by rw [executor]; exact hd) hnear (by omega) hcover
    ⟨_, List.mem_cons_self, .inl ⟨_, _, rfl⟩⟩ fun t' ev hev hend' => ?_
  rcases List.mem_cons.mp hev with rfl | hev
  · rcases hend' with ⟨_, _, h⟩ | ⟨_, h, -⟩
    · exact (Event.answered.inj h).1.symm
    · cases h
  · rcases List.mem_cons.mp hev with rfl | hev
    · rcases hend' with ⟨_, _, h⟩ | ⟨_, h, -⟩ <;> cases h
    · exact absurd hend' (hnone t' ev hev)

end

/-- Every move that writes nothing keeps the account. -/
theorem Spaced.step {gap : UInt32} {since : List Event} (h : Spaced gap since m.pre)
    (hm : BusCase c m) (hnow : m.pre.now ≤ m.post.now)
    (hsilent : ¬ Writes m) : Spaced gap (since ++ m.evs) m.post := by
  cases hm with
  | rest executor silent =>
      exact h.rest hnow executor fun t ev hev => not_commandEnd_of_kind (silent ev hev)
  | start t header first notBus idle executor evs time =>
      rw [evs]
      exact h.start idle executor notBus time
  | loop rx t₁ t₂ t₃ executor evs time =>
      have hc := loop_case c.bus rx t₁ t₂ t₃ m.pre.executor
      generalize m.pre.executor.loop c.bus rx t₁ t₂ t₃ = r at hc executor evs
      cases hc with
      | rest _ hne =>
          rw [evs]
          exact h.rest hnow (.inl ⟨m.pre.executor.baudRateHint, executor⟩) (by simp)
      | sent =>
          refine absurd ⟨t₁, m.pre.executor.txFrame, ?_⟩ hsilent
          rw [evs]
          exact List.mem_singleton.mpr rfl
      | listening frame at' hs =>
          cases h with
          | waiting hstate hgap hopen =>
              rw [evs, List.append_nil]
              exact .waiting (by rw [executor]; exact hs) (by rw [executor]; exact hgap) hopen
          | ended d hstate => exact absurd hs hstate
      | failed frame at' fault hs hfault =>
          cases h with
          | waiting hstate hgap hopen =>
              rw [evs]
              exact .failed hopen hgap hfault (by omega) executor
          | ended d hstate => exact absurd hs hstate
      | accepted frame at' hs =>
          cases h with
          | waiting hstate hgap hopen => exact .accepted hopen hgap (by omega) executor evs
          | ended d hstate => exact absurd hs hstate

/-- From one frame to the next: the command in between has ended, and from each
of its ends to the next frame there is the whole gap its function code asks for. -/
theorem commands_are_spaced {b : BootInput} (hread : c.bus.readGapMs.toNat < 2 ^ 31)
    (hwrite : c.bus.writeGapMs.toNat < 2 ^ 31) {before mid after : List Moment} {m₁ m₂ : Moment}
    (h : Runs P c (setup P b).1 (before ++ m₁ :: mid ++ m₂ :: after) w) {t₁ t₂ : Nat}
    {frame₁ frame₂ : Bytes} (h₁ : Event.wrote t₁ frame₁ ∈ m₁.evs)
    (h₂ : Event.wrote t₂ frame₂ ∈ m₂.evs)
    (hnext : ∀ m ∈ mid, ¬ Writes m) :
    (∃ t, ∃ ev ∈ mid.flatMap Move.evs, CommandEnd t ev) ∧
      ∀ t, ∀ ev ∈ mid.flatMap Move.evs, CommandEnd t ev →
        t + (if 5 ≤ frame₁.getD 1 0 ∧ frame₁.getD 1 0 ≠ 23 then c.bus.writeGapMs
          else c.bus.readGapMs).toNat ≤ t₂ := by
  have hg := h.guarded
  rw [List.append_assoc, List.cons_append] at hg
  obtain ⟨-, hm₁, hrest⟩ := hg.at
  obtain ⟨hmid, hm₂, -⟩ := hrest.at
  have hspaced : Spaced (gapAfter c.bus frame₁) (mid.flatMap Move.evs) m₂.pre := by
    have hall : (∀ m ∈ mid, ¬ Writes m) →
        Spaced (gapAfter c.bus frame₁) (mid.flatMap Move.evs) m₂.pre := by
      refine hmid.history (H := fun es w => (∀ m ∈ es, ¬ Writes m) →
        Spaced (gapAfter c.bus frame₁) (es.flatMap Move.evs) w) (fun _ => ?_) ?_
      · obtain ⟨-, hown, -, -, t', hexecutor⟩ := hm₁.1.of_wrote hm₁.2.1 h₁
        refine .waiting (by rw [hexecutor]; rfl) ?_ (by simp)
        rw [hexecutor, hown]
        rfl
      · intro es m _ ih hm hes
        rw [List.flatMap_append, List.flatMap_singleton]
        have hih := ih fun x hx => hes x (List.mem_append_left _ hx)
        exact hih.step (hm.1.bus hm.2.1) hm.2.2.2 (hes m (by simp))
    exact hall hnext
  have hlt : (gapAfter c.bus frame₁).toNat < 2 ^ 31 := by
    rw [gapAfter]
    split
    · exact hwrite
    · exact hread
  obtain ⟨hstate, -, hreached, htime, -⟩ := hm₂.1.of_wrote hm₂.2.1 h₂
  cases hspaced with
  | waiting hwait =>
      rw [hstate] at hwait
      cases hwait
  | ended d _ _ hd hnear hsome hcovers =>
      rw [hd] at hreached
      have hle : d ≤ t₂ := le_of_reached hreached (by omega)
      refine ⟨hsome, fun t ev hev hend => ?_⟩
      exact (hcovers t ev hev hend).2.trans hle

/-- The first frame of the night is a write: the second waits out three seconds. -/
theorem commands_are_spaced_night :
    ∃ t, ∃ ev ∈ ((nightRun.drop 12).take 18).flatMap Move.evs,
      CommandEnd t ev ∧ t + 3000 ≤ 9102 := by
  have hlen : 11 + 1 + 18 < nightRun.length := by decide +kernel
  have h₁ : Event.wrote 5001 [1, 6, 0, 1, 0, 2, 0x59, 0xCB] ∈ nightRun[11].evs := by
    decide +kernel +revert
  have h₂ : Event.wrote 9102 [2, 6, 0, 1, 0, 3, 0x98, 0x38] ∈ nightRun[30].evs := by
    clear h₁
    decide +kernel +revert
  have hrun : Runs nightDevice {} (setup nightDevice unplugged).1 nightRun _ := performAll_runs rfl
  rw [pick_two nightRun 11 18 hlen] at hrun
  obtain ⟨⟨t, ev, hev, hend⟩, hall⟩ :=
    commands_are_spaced (by decide) (by decide) hrun h₁ h₂ (by decide +kernel)
  exact ⟨t, ev, hev, hend, hall t ev hev hend⟩

end Gbb
