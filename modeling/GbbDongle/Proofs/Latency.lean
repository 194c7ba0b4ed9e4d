import GbbDongle.Proofs.Bus
import GbbDongle.Proofs.Liveness
import GbbDongle.Proofs.Origin
import GbbDongle.Proofs.Requests

/-!
# How long the bus is kept waiting

The results about one batch, carried to runs of the device. `Punctual` says that
the loop comes round every `d` milliseconds, `InWindow` that no batch begins so long
after the last command that its gap has left the window of the wrapping clock.
Then whatever holds the executor gives it back in bounded time, and `Turnover`
is the one fact both results rest on: by the instant `L` the dispatch stage
finds the executor free. A cloud request is answered after the batch in front of
it and its own; a send cycle comes to its end after as many sets as are stored
for it.
-/

namespace Gbb

open History Wrap EmergencyManager ModbusExecutor

variable {P : Platform} {c : Config} {m : Moment} {es : List Moment} {w : World} {d L : Nat}

/-! ## The calls of a run -/

/-- The last call of the executor's `loop`; a call at boot when there has been
none. -/
def lastCall (es : List Moment) : LoopCall := (es.filterMap callOf).getLast?.getD ⟨[], 0, 0, 0⟩

theorem lastCall_none (h : callOf m = none) : lastCall (es ++ [m]) = lastCall es := by
  rw [lastCall, lastCall, List.filterMap_append, List.filterMap_cons_none h, List.filterMap_nil,
    List.append_nil]

theorem lastCall_some {call : LoopCall} (h : callOf m = some call) :
    lastCall (es ++ [m]) = call := by
  rw [lastCall, List.filterMap_append, List.filterMap_cons_some h, List.filterMap_nil,
    List.getLast?_concat, Option.getD_some]

/-- No clock reading comes more than `d` milliseconds after the call of the
executor's `loop` before it. -/
def Punctual (d : Nat) (es : List Moment) : Prop :=
  ∀ before m after, es = before ++ m :: after → m.post.now ≤ (lastCall before).t₁ + d

/-- Every batch begins before the last gap is half a wrap old. -/
def InWindow (d : Nat) (es : List Moment) : Prop :=
  ∀ before m after, es = before ++ m :: after → Starts m →
    m.post.now + d < lastGap before + 2 ^ 31

instance (d : Nat) (es : List Moment) : Decidable (Punctual d es) :=
  decidable_of_iff (along (fun a m => (callOf m).getD a)
      (fun a m => decide (m.post.now ≤ a.t₁ + d)) (lastCall []) es = true) <| by
    rw [along_iff (f := lastCall)]
    · simp only [decide_eq_true_eq, List.nil_append]
      rfl
    · intro es m
      cases hcall : callOf m with
      | none => exact lastCall_none hcall
      | some call => exact lastCall_some hcall

instance (m : Moment) : Decidable (Starts m) :=
  decidable_of_iff (m.evs.any Event.isStart = true) List.any_eq_true

instance (d : Nat) (es : List Moment) : Decidable (InWindow d es) :=
  decidable_of_iff (along (fun t m => m.evs.foldl Event.deadline t)
      (fun t m => decide (Starts m → m.post.now + d < t + 2 ^ 31)) (lastGap []) es = true) <| by
    rw [along_iff (f := lastGap)]
    · simp only [decide_eq_true_eq, List.nil_append]
      rfl
    · intro es m
      rw [lastGap, lastGap, List.flatMap_append, List.foldl_append, List.flatMap_singleton]

theorem Punctual.of_append {after : List Moment} (h : Punctual d (es ++ after)) :
    Punctual d es := by
  intro before m rest heq
  refine h before m (rest ++ after) ?_
  rw [heq, List.append_assoc, List.cons_append]

theorem Punctual.last (h : Punctual d (es ++ [m])) : m.post.now ≤ (lastCall es).t₁ + d :=
  h es m [] rfl

theorem InWindow.of_append {after : List Moment} (h : InWindow d (es ++ after)) :
    InWindow d es := by
  intro before m rest heq
  refine h before m (rest ++ after) ?_
  rw [heq, List.append_assoc, List.cons_append]

/-- A move with all that is known of it. -/
structure Timed (P : Platform) (c : Config) (m : Moment) : Prop where
  step : Step P c m
  sound : Sound m.pre
  exec : ExecCase c m
  now : m.pre.now ≤ m.post.now

theorem Runs.timed {b : BootInput} (h : Runs P c (setup P b).1 es w) :
    Run (Timed P c) (setup P b).1 es w := by
  refine (Run.guarded h (Sound.setup P b) fun _ hm hw => hw.step (step_case hm)).mono ?_
  intro m hm
  exact ⟨hm.1, hm.2.1, hm.1.exec hm.2.1, hm.1.now_le⟩

/-- The last call lies in the past. -/
theorem lastCall_le {w₀ : World} (h : Run (Timed P c) w₀ es w) :
    (lastCall es).t₁ ≤ (lastCall es).t₃ ∧ (lastCall es).t₃ ≤ w.now := by
  refine h.history (H := fun es w => (lastCall es).t₁ ≤ (lastCall es).t₃ ∧
    (lastCall es).t₃ ≤ w.now) ⟨Nat.le_refl _, Nat.zero_le _⟩ ?_
  intro es m _ ih hm
  have hnow := hm.now
  cases hm.exec with
  | rest b executor call | taken result executor call =>
      rw [lastCall_none call]
      omega
  | handed t key lines idle queued next executor manager call =>
      rw [lastCall_none call]
      omega
  | started t header idle queued waiting executor manager call =>
      rw [lastCall_none call]
      omega
  | called call eq executor starts manager pending stage time =>
      rw [lastCall_some eq]
      omega

/-- The next call follows the last one. -/
theorem Punctual.follows {w₀ : World} (hp : Punctual d (es ++ [m]))
    (h : Run (Timed P c) w₀ es m.pre) {call : LoopCall}
    (time : m.pre.now ≤ call.t₁ ∧ call.t₁ ≤ call.t₂ ∧ call.t₂ ≤ call.t₃ ∧ call.t₃ = m.post.now) :
    Follows d (lastCall es) call := by
  have hpast := lastCall_le h
  have hlast := hp.last
  exact ⟨by omega, by omega, by omega, by omega⟩

/-- A run that is punctual so far has not outlived its last call by more. -/
theorem Punctual.now_le {w₀ : World} (hrun : Run (Timed P c) w₀ es m.pre) (hm : Timed P c m)
    (hp : Punctual d (es ++ [m])) : m.post.now ≤ (lastCall (es ++ [m])).t₁ + d := by
  have hlast := hp.last
  cases hm.exec with
  | rest b executor call | taken result executor call =>
      rw [lastCall_none call]
      exact hlast
  | handed t key lines idle queued next executor manager call =>
      rw [lastCall_none call]
      exact hlast
  | started t header idle queued waiting executor manager call =>
      rw [lastCall_none call]
      exact hlast
  | called call eq executor starts manager pending stage time =>
      have hpast := lastCall_le hrun
      rw [lastCall_some eq]
      omega

/-! ## The gap lies ahead by a gap at most -/

theorem startNextLine_ahead {t g n : Nat} {e : ModbusExecutor} (hg : g ≤ n)
    (ht : t + e.nextGapMs.toNat ≤ n) :
    (e.startNextLine t).1.nextGapMs = e.nextGapMs ∧
      (e.startNextLine t).2.foldl Event.deadline g ≤ n := by
  have hc := startNextLine_case t e
  generalize e.startNextLine t = r at hc ⊢
  cases hc with
  | finished => exact ⟨rfl, hg⟩
  | badHex => exact ⟨rfl, ht⟩
  | ready => exact ⟨rfl, hg⟩

theorem Runs.gapAhead {b : BootInput} (h : Runs P c (setup P b).1 es w) :
    w.executor.nextGapMs.toNat ≤ longestGap c.bus ∧ lastGap es ≤ w.now + longestGap c.bus := by
  refine h.guarded.history (H := fun es w => w.executor.nextGapMs.toNat ≤ longestGap c.bus ∧
    lastGap es ≤ w.now + longestGap c.bus) ⟨Nat.zero_le _, Nat.zero_le _⟩ ?_
  intro es m _ ih hm
  obtain ⟨hgap, hahead⟩ := ih
  have hnow := hm.2.2.2
  rw [lastGap, List.flatMap_append, List.foldl_append, List.flatMap_singleton]
  show _ ∧ m.evs.foldl Event.deadline (lastGap es) ≤ _
  cases hm.1.bus hm.2.1 with
  | rest executor silent =>
      rw [foldl_deadline_of_silent silent]
      have hsame : m.post.executor.nextGapMs = m.pre.executor.nextGapMs := by
        rcases executor with ⟨b, executor⟩ | ⟨-, executor⟩
        · rw [executor]
        · rw [executor]
          rfl
      rw [hsame]
      omega
  | start t header first notBus idle executor evs time =>
      have hfirst : first.deadline (lastGap es) = lastGap es := by
        cases first <;> first | rfl | exact absurd rfl notBus
      rw [executor, evs, List.foldl_cons, hfirst]
      obtain ⟨hsame, hle⟩ := startNextLine_ahead (t := t) (g := lastGap es)
        (n := m.post.now + longestGap c.bus)
        (e := { m.pre.executor with header := header, lineIndex := 0, state := .gap })
        (by omega) (by show t + m.pre.executor.nextGapMs.toNat ≤ _; omega)
      refine ⟨?_, hle⟩
      rw [start, hsame]
      exact hgap
  | loop rx t₁ t₂ t₃ executor evs time =>
      rw [executor, evs]
      have hc := loop_case c.bus rx t₁ t₂ t₃ m.pre.executor
      generalize m.pre.executor.loop c.bus rx t₁ t₂ t₃ = r at hc ⊢
      cases hc with
      | rest => exact ⟨hgap, by show lastGap es ≤ _; omega⟩
      | sent => exact ⟨gapAfter_le c.bus _, by show lastGap es ≤ _; omega⟩
      | listening => exact ⟨hgap, by show lastGap es ≤ _; omega⟩
      | failed =>
          refine ⟨hgap, ?_⟩
          show t₂ + m.pre.executor.nextGapMs.toNat ≤ _
          omega
      | accepted frame at' hs =>
          have hset : ((m.pre.executor.withRx frame at').settleLine t₂).nextGapMs =
              m.pre.executor.nextGapMs := rfl
          obtain ⟨hsame, hle⟩ := startNextLine_ahead (t := t₃)
            (g := t₂ + m.pre.executor.nextGapMs.toNat) (n := m.post.now + longestGap c.bus)
            (e := (m.pre.executor.withRx frame at').settleLine t₂) (by omega)
            (by rw [hset]; omega)
          refine ⟨?_, hle⟩
          show (startNextLine t₃ _).1.nextGapMs.toNat ≤ _
          rw [hsame, hset]
          exact hgap

/-! ## The batch in hand -/

/-- A reply in place of a request leaves a payload where there was one. -/
theorem payloads_modify_le {f : GbbLine → GbbLine}
    (hf : ∀ l, l.carries = true → (f l).carries = true)
    (n : Nat) (ls : List GbbLine) : payloads ls ≤ payloads (ls.modify n f) := by
  induction ls generalizing n with
  | nil => exact Nat.zero_le _
  | cons l ls ih =>
      cases n with
      | zero =>
          show payloads (l :: ls) ≤ payloads (f l :: ls)
          rw [payloads, payloads, List.filter_cons, List.filter_cons]
          by_cases hl : l.carries = true
          · rw [if_pos hl, if_pos (hf l hl), List.length_cons, List.length_cons]
          · rw [if_neg hl]
            split
            · exact Nat.le_succ _
            · exact Nat.le_refl _
      | succ n =>
          have hrest := ih n
          rw [List.modify_succ_cons, payloads, payloads, List.filter_cons, List.filter_cons]
          rw [payloads, payloads] at hrest
          split
          · rw [List.length_cons, List.length_cons]
            omega
          · exact hrest

theorem startNextLine_lines {t : Nat} {e : ModbusExecutor}
    (h : (e.startNextLine t).1.state ≠ .done) : (e.startNextLine t).1.header = e.header := by
  have hc := startNextLine_case t e
  generalize e.startNextLine t = r at hc h ⊢
  cases hc with
  | finished => rfl
  | badHex => exact absurd rfl h
  | ready => rfl

/-- While a batch goes on, it loses no payload. -/
theorem payloads_poll_le {b : LoopCall} {e : ModbusExecutor}
    (h : (poll c.bus b e).1.state ≠ .done) :
    payloads e.header.lines ≤ payloads (poll c.bus b e).1.header.lines := by
  have hc := loop_case c.bus b.rx b.t₁ b.t₂ b.t₃ e
  rw [poll] at h ⊢
  generalize e.loop c.bus b.rx b.t₁ b.t₂ b.t₃ = r at hc h ⊢
  cases hc with
  | rest | sent | listening => exact Nat.le_refl _
  | failed => exact absurd rfl h
  | accepted frame at' hs hlen hcrc =>
      have hheader : (acceptReply b.t₂ b.t₃ (e.withRx frame at')).1.header =
          ((e.withRx frame at').settleLine b.t₂).header := startNextLine_lines h
      rw [hheader]
      refine payloads_modify_le (fun l hl => ?_) _ _
      rw [GbbLine.carries, Bool.and_eq_true] at hl ⊢
      refine ⟨hl.1, ?_⟩
      have hlong : (bytesToHex frame).length = 2 * frame.length := length_bytesToHex frame
      show (!(bytesToHex frame).isEmpty) = true
      cases hhex : bytesToHex frame with
      | nil =>
          rw [hhex, List.length_nil] at hlong
          omega
      | cons => rfl

/-- What a batch that is in hand costs at most, from when it began. -/
def batchTime (c : Config) (d : Nat) (lines : List GbbLine) : Nat :=
  payloads lines * lineTime c.bus d

theorem batchTime_le {lines lines' : List GbbLine} (h : payloads lines ≤ payloads lines') :
    batchTime c d lines ≤ batchTime c d lines' := Nat.mul_le_mul_right _ h

/-- A batch that is in hand began some time ago, and is due from then on. -/
def Timely (c : Config) (d : Nat) (es : List Moment) (w : World) : Prop :=
  ∃ s ≤ w.now, Due c.bus d (lastCall es) (s + batchTime c d w.executor.header.lines) w.executor

/-- A batch that begins now is due after the time for its lines. -/
theorem begun_due {w₀ : World} {b : BootInput} {t : Nat} {header : GbbHeader}
    (hrun : Runs P c (setup P b).1 es m.pre) (ht : Run (Timed P c) w₀ es m.pre)
    (hf : InWindow d (es ++ [m])) (starts : Starts m)
    (executor : m.post.executor = (m.pre.executor.start t header).1)
    (time : m.pre.now ≤ t ∧ t ≤ m.post.now) :
    Due c.bus d (lastCall es) (t + batchTime c d header.lines) m.post.executor := by
  have hfresh := hf es m [] rfl starts
  have hahead := (Runs.gapAhead hrun).2
  have hpast := lastCall_le ht
  rw [executor]
  exact start_due (Runs.gapUntil hrun) (by omega) (by omega) (by omega)

theorem start_lines {t : Nat} {header : GbbHeader} {e : ModbusExecutor}
    (h : (e.start t header).1.state ≠ .done) : (e.start t header).1.header = header :=
  startNextLine_lines (e := { e with header := header, lineIndex := 0, state := .gap }) h

/-- So it is when it ends at once. -/
theorem Timely.begun {w₀ : World} {b : BootInput} {t : Nat} {header : GbbHeader}
    (hrun : Runs P c (setup P b).1 es m.pre) (ht : Run (Timed P c) w₀ es m.pre)
    (hf : InWindow d (es ++ [m])) (starts : Starts m) (call : callOf m = none)
    (executor : m.post.executor = (m.pre.executor.start t header).1)
    (time : m.pre.now ≤ t ∧ t ≤ m.post.now) : Timely c d (es ++ [m]) m.post := by
  refine ⟨t, time.2, ?_⟩
  have hbegun := begun_due hrun ht hf starts executor time
  rw [lastCall_none call]
  by_cases hdone : m.post.executor.state = .done
  · exact .ended (by rw [hdone]; nofun) (by rw [hdone]; nofun)
  · have hheader : m.post.executor.header = header := by
      rw [executor] at hdone ⊢
      exact start_lines hdone
    rw [hheader]
    exact hbegun

theorem Runs.timely {b : BootInput} (h : Runs P c (setup P b).1 es w) (hp : Punctual d es)
    (hf : InWindow d es) (hd : c.bus.responseTimeoutMs.toNat + d < 2 ^ 31) : Timely c d es w := by
  have hall : Punctual d es → InWindow d es → Timely c d es w := by
    refine Run.history (H := fun es w => Punctual d es → InWindow d es → Timely c d es w) h
      (fun _ _ => ⟨0, Nat.zero_le _, .ended nofun nofun⟩) ?_
    intro es m hrun ih hm hp hf
    have ht := Runs.timed hrun
    have hnow := hm.now_le
    obtain ⟨s, hs, hdue⟩ := ih hp.of_append hf.of_append
    cases hm.exec (Runs.sound hrun) with
    | rest b executor call =>
        refine ⟨s, hs.trans hnow, ?_⟩
        rw [lastCall_none call, executor]
        exact hdue.hint b
    | taken result executor call =>
        refine ⟨s, hs.trans hnow, ?_⟩
        rw [executor]
        exact .ended nofun nofun
    | handed t key lines idle queued next executor manager call starts stage time =>
        exact .begun hrun ht hf starts call executor time
    | started t header idle queued waiting executor manager call starts stage time =>
        exact .begun hrun ht hf starts call executor time
    | called call eq executor starts manager pending stage time =>
        refine ⟨s, hs.trans hnow, ?_⟩
        rw [lastCall_some eq, executor]
        have hnext := hdue.poll (hp.follows ht time) hd
        by_cases hdone : (poll c.bus call m.pre.executor).1.state = .done
        · exact .ended (by rw [hdone]; nofun) (by rw [hdone]; nofun)
        · exact hnext.mono (Nat.add_le_add_left (batchTime_le (payloads_poll_le hdone)) s)
  exact hall hp hf

/-! ## The executor changes hands -/

/-- By `L` the dispatch stage finds the executor free, `a` being the last call
of its `loop`. -/
inductive Turnover (c : Config) (d : Nat) (a : LoopCall) (L : Nat) (w : World) : Prop
  | busy (D : Nat) (state : w.executor.state = .gap ∨ w.executor.state = .rxWait)
      (due : Due c.bus d a D w.executor) (le : D + 2 * d ≤ L)
  | free (state : w.executor.busy = false) (le : a.t₁ + d ≤ L)
      (execute : w.stage = .execute → a.t₁ + 2 * d ≤ L)

theorem Turnover.now_le {a : LoopCall} (h : Turnover c d a L w) (hnow : w.now ≤ a.t₁ + d) :
    w.now ≤ L := by
  cases h with
  | busy D state due le =>
      have hin := due.underWay state
      omega
  | free state le => omega

theorem Turnover.mono {a : LoopCall} {L' : Nat} (h : Turnover c d a L w) (hle : L ≤ L') :
    Turnover c d a L' w := by
  cases h with
  | busy D state due le => exact .busy D state due (le.trans hle)
  | free state le execute => exact .free state (le.trans hle) fun hs => (execute hs).trans hle

theorem busy_eq_false {e : ModbusExecutor} (h : e.state = .idle ∨ e.state = .done) :
    e.busy = false := by
  rcases h with h | h
  · rw [ModbusExecutor.busy, h]
    rfl
  · rw [ModbusExecutor.busy, h]
    rfl

/-- The execute stage follows the dispatch stage. -/
theorem Step.into_execute (hm : Step P c m) (hs : m.post.stage = .execute) :
    m.pre.stage = .execute ∨ m.pre.stage = .dispatch := by
  have hstage : m.post.stage = m.act.next m.pre.stage := congrArg (fun r => r.1.stage) hm.2
  have hfits := hm.1
  rw [hstage] at hs
  cases hact : m.act with
  | log level line =>
      rw [hact] at hs
      exact .inl hs
  | dispatch wait =>
      rw [hact] at hfits
      exact .inr (by simpa [Act.fits] using hfits)
  | _ =>
      rw [hact] at hs
      cases hs

/-- What a move makes of the instant: it stands, or a batch begins, or the
dispatch stage finds nothing to do. -/
theorem Turnover.step {w₀ : World} (h : Turnover c d (lastCall es) L m.pre) (hm : Timed P c m)
    (hrun : Run (Timed P c) w₀ es m.pre) (hp : Punctual d (es ++ [m]))
    (hd : c.bus.responseTimeoutMs.toNat + d < 2 ^ 31) (hstill : ¬ Starts m) :
    Turnover c d (lastCall (es ++ [m])) L m.post ∨
      (m.pre.stage = .dispatch ∧ m.post.stage = .execute ∧ m.pre.executor.busy = false) := by
  cases hm.exec with
  | rest b executor call =>
      rw [lastCall_none call]
      have hbusy : m.post.executor.busy = m.pre.executor.busy := by rw [executor]; rfl
      cases h with
      | busy D state due le =>
          refine .inl (.busy D ?_ ?_ le)
          · rw [executor]
            exact state
          · rw [executor]
            exact due.hint b
      | free state le execute =>
          by_cases hs : m.post.stage = .execute
          · rcases hm.step.into_execute hs with hpre | hpre
            · exact .inl (.free (hbusy.trans state) le fun _ => execute hpre)
            · exact .inr ⟨hpre, hs, state⟩
          · exact .inl (.free (hbusy.trans state) le fun h => absurd h hs)
  | taken result executor call finished starts stage =>
      rw [lastCall_none call]
      have hidle : m.post.executor.busy = false := by
        rw [executor]
        rfl
      cases h with
      | busy D state =>
          rw [result] at state
          simp at state
      | free state le execute =>
          refine .inl (.free hidle le fun hs => ?_)
          rw [stage.2] at hs
          cases hs
  | handed t key lines idle queued next executor manager call starts => exact absurd starts hstill
  | started t header idle queued waiting executor manager call starts => exact absurd starts hstill
  | called call eq executor starts manager pending stage time =>
      rw [lastCall_some eq]
      have hfollows := hp.follows hrun time
      have hsoon := hfollows.soon
      have hle : call.t₁ ≤ call.t₃ := hfollows.first.trans hfollows.second
      have hkeep : m.post.stage ≠ .execute := by
        rw [stage.2]
        nofun
      left
      cases h with
      | busy D state due le =>
          have hin := due.underWay state
          have hnext := due.poll hfollows hd
          have hhand : HasBatch m.pre.executor := by
            rcases state with hs | hs
            · exact .inl hs
            · exact .inr (.inl hs)
          rw [← executor] at hnext
          rcases executor ▸ hhand.poll call with hs | hs | hs
          · exact .busy D (.inl hs) hnext le
          · exact .busy D (.inr hs) hnext le
          · exact .free (busy_eq_false (.inr hs)) (by omega) fun h => absurd h hkeep
      | free state le execute =>
          have hroom := execute stage.1
          have hrests : m.post.executor = m.pre.executor := by
            rw [executor, poll, ModbusExecutor.loop]
            rw [ModbusExecutor.busy] at state
            cases hs : m.pre.executor.state <;> rw [hs] at state <;> first | rfl | cases state
          exact .free (by rw [hrests]; exact state) (by omega) fun h => absurd h hkeep

/-- A batch that begins puts the next change of hands off by its own time. -/
theorem Turnover.begun {w₀ : World} {b : BootInput} {t : Nat} {header : GbbHeader}
    (h : Turnover c d (lastCall es) L m.pre) (hrun : Runs P c (setup P b).1 es m.pre)
    (ht : Run (Timed P c) w₀ es m.pre) (hp : Punctual d (es ++ [m])) (hf : InWindow d (es ++ [m]))
    (starts : Starts m) (call : callOf m = none) (idle : m.pre.executor.state = .idle)
    (executor : m.post.executor = (m.pre.executor.start t header).1)
    (time : m.pre.now ≤ t ∧ t ≤ m.post.now) :
    Turnover c d (lastCall (es ++ [m])) (L + (batchTime c d header.lines + 2 * d)) m.post := by
  have hbegun := begun_due hrun ht hf starts executor time
  have hlast := hp.last
  rw [lastCall_none call]
  have hle : (lastCall es).t₁ + d ≤ L := by
    cases h with
    | busy D state =>
        rw [idle] at state
        simp at state
    | free state le => exact le
  rcases start_state t header m.pre.executor with hs | hs
  · rw [← executor] at hs
    exact .busy _ (.inl hs) hbegun (by omega)
  · rw [← executor] at hs
    exact .free (busy_eq_false (.inr hs)) (by omega) fun _ => by omega

/-- The executor is idle, or holds a batch. -/
theorem Runs.held {b : BootInput} (h : Runs P c (setup P b).1 es w) :
    w.executor.state = .idle ∨ HasBatch w.executor := by
  refine (Runs.timed h).invariant (I := fun w => w.executor.state = .idle ∨ HasBatch w.executor)
    (.inl rfl) ?_
  intro m hm hheld
  cases hm.exec with
  | rest b executor =>
      rw [executor]
      exact hheld
  | taken result executor =>
      rw [executor]
      exact .inl rfl
  | handed t key lines idle queued next executor =>
      rw [executor]
      exact .inr (start_hasBatch t _ _)
  | started t header idle queued waiting executor =>
      rw [executor]
      exact .inr (start_hasBatch t header _)
  | called call eq executor =>
      rw [executor]
      rcases hheld with hs | hhand
      · exact .inl ((loop_state_idle c.bus call.rx call.t₁ call.t₂ call.t₃ _).mpr hs)
      · exact .inr (hhand.poll call)

/-- At any point of a run the executor is free after the batch in hand. -/
theorem Runs.turnover {b : BootInput} (h : Runs P c (setup P b).1 es w) (hp : Punctual d es)
    (hf : InWindow d es) (hd : c.bus.responseTimeoutMs.toNat + d < 2 ^ 31)
    (hs : w.stage ≠ .execute) :
    Turnover c d (lastCall es) (w.now + (batchTime c d w.executor.header.lines + 2 * d)) w := by
  obtain ⟨s, hle, hdue⟩ := Runs.timely h hp hf hd
  have hpast := lastCall_le (Runs.timed h)
  by_cases hbusy : w.executor.state = .gap ∨ w.executor.state = .rxWait
  · exact .busy _ hbusy hdue (by omega)
  · refine .free (busy_eq_false ?_) (by omega) fun h => absurd h hs
    rcases Runs.held h with hidle | hgap | hrx | hdone
    · exact .inl hidle
    · exact absurd (.inl hgap) hbusy
    · exact absurd (.inr hrx) hbusy
    · exact .inr hdone

/-! ## A cloud request -/

/-- Something to do for a free executor. -/
def HasWork (w : World) : Prop :=
  w.manager.state = .queued ∨ ∃ header, w.pending = some header

/-- The dispatch stage does not pass over work. -/
theorem Timed.dispatches (hm : Timed P c m)
    (hs : m.pre.stage = .dispatch ∧ m.post.stage = .execute ∧ m.pre.executor.busy = false)
    (hwork : HasWork m.pre) : Starts m := by
  obtain ⟨hpre, hpost, hbusy⟩ := hs
  have hevs : m.evs = (m.act.perform P c m.pre).2 := congrArg Prod.snd hm.step.2
  have hstage : m.post.stage = m.act.next m.pre.stage := congrArg (fun r => r.1.stage) hm.step.2
  have hfits := hm.step.1
  cases hact : m.act with
  | dispatch wait =>
      rw [hact] at hevs
      have hcase : m.evs = (Gbb.dispatch (m.pre.now + wait) m.pre).2 := hevs
      rw [Gbb.dispatch, if_neg (by rw [hbusy]; exact Bool.false_ne_true)] at hcase
      by_cases hq : m.pre.manager.state = .queued
      · obtain ⟨entry, hentry⟩ := hm.sound.nextEntry hq
        rw [if_pos (by rw [wantsBus, hq]; rfl)] at hcase
        refine ⟨.handed m.pre.manager.walkFromStart entry.1 entry.2, ?_, rfl⟩
        rw [hcase, startNextSet, hentry]
        exact List.mem_cons_self ..
      · rcases hwork with hwork | ⟨header, hpending⟩
        · exact absurd hwork hq
        · have hslot : m.pre.dongle.pendingRequest = some header := hpending
          rw [if_neg (by simpa [wantsBus] using hq), hslot] at hcase
          refine ⟨.started header, ?_, rfl⟩
          rw [hcase]
          exact List.mem_cons_self ..
  | log level line =>
      rw [hact] at hstage
      have hsame : m.post.stage = m.pre.stage := hstage
      rw [hpost, hpre] at hsame
      cases hsame
  | _ =>
      rw [hact, hpre] at hfits
      cases hfits

/-- A move of `after` up to the start of the request. -/
def BeforeStart (header : GbbHeader) (after : List Moment) (x : Moment) : Prop :=
  ∃ since rest, after = since ++ x :: rest ∧ ∀ y ∈ since, Event.started header ∉ y.evs

theorem BeforeStart.append {header : GbbHeader} {after later : List Moment} {x : Moment}
    (h : BeforeStart header after x) : BeforeStart header (after ++ later) x := by
  obtain ⟨since, rest, rfl, hsince⟩ := h
  exact ⟨since, rest ++ later, by simp, hsince⟩

theorem BeforeStart.last {header : GbbHeader} {since : List Moment} {x : Moment}
    (h : ∀ y ∈ since, Event.started header ∉ y.evs) : BeforeStart header (since ++ [x]) x :=
  ⟨since, [], rfl, h⟩

theorem BeforeStart.mem {header : GbbHeader} {after : List Moment} {x : Moment}
    (h : BeforeStart header after x) : x ∈ after := by
  obtain ⟨since, rest, rfl, -⟩ := h
  simp

/-- The request is pending, and has been in all of `fs`. -/
structure Pends (header : GbbHeader) (fs : List Moment) (w : World) : Prop where
  waiting : w.pending = some header
  unstarted : ∀ y ∈ fs, Event.started header ∉ y.evs

/-- A request on its way: pending until `L₁` at the latest, and then in the
executor's hands until `L₂`. -/
inductive Awaited (c : Config) (d : Nat) (a : LoopCall) (header : GbbHeader) (L₁ L₂ : Nat)
    (fs : List Moment) (w : World) : Prop
  | pending (pends : Pends header fs w) (turn : Turnover c d a L₁ w)
  | inHand (same : SameRequest header w.executor.header)
      (cloud : w.executor.header.emergency = false) (state : w.executor.state ≠ .idle)
      (turn : Turnover c d a L₂ w)

/-- The request is answered: its result is taken, and published in one complete
document that answers it, or in none if even the shortest would be too long. -/
def Replies (P : Platform) (c : Config) (header : GbbHeader) (m : Moment) : Prop :=
  ∃ result, answer m = some result ∧ AnsweredBy P c header result

/-- That is what taking the result of a request comes to. -/
theorem StepCase.replies {header : GbbHeader} (hm : StepCase P c m) (hw : Sound m.pre)
    (hand : InHand header m.pre.executor) (taken : m.post.executor.state = .idle) :
    Replies P c header m := by
  cases hm.desk hw with
  | still ops published kept => exact absurd taken (kept header hand).state
  | started header' ops published free => exact absurd free hand.not_offDesk
  | answered result ops published busy owed =>
      have htake : (answer m).toList = [result] := by
        rw [← takes_deskOp, ops]
        rfl
      exact ⟨result, Option.toList_eq_singleton_iff.mp htake, owed header hand⟩

/-- A request in the executor's hands, until `L` at the latest. -/
structure AtWork (c : Config) (d : Nat) (a : LoopCall) (header : GbbHeader) (L : Nat)
    (w : World) : Prop where
  same : SameRequest header w.executor.header
  cloud : w.executor.header.emergency = false
  state : w.executor.state ≠ .idle
  turn : Turnover c d a L w

/-- It stays there until it is answered, whatever is queued meanwhile. -/
theorem AtWork.step {w₀ : World} {header : GbbHeader} (h : AtWork c d (lastCall es) header L m.pre)
    (ht : Run (Timed P c) w₀ es m.pre) (hm : Timed P c m) (hp : Punctual d (es ++ [m]))
    (hd : c.bus.responseTimeoutMs.toNat + d < 2 ^ 31) :
    AtWork c d (lastCall (es ++ [m])) header L m.post ∨ Replies P c header m := by
  obtain ⟨same, cloud, state, turn⟩ := h
  by_cases hstarts : Starts m
  · exact absurd ((step_case hm.step).starts hm.sound hstarts) state
  · rcases turn.step hm ht hp hd hstarts with hturn | ⟨hdispatch, -, hbusy⟩
    · cases hm.exec with
      | rest b executor =>
          refine .inl ⟨?_, ?_, ?_, hturn⟩
          · rw [executor]
            exact same
          · rw [executor]
            exact cloud
          · rw [executor]
            exact state
      | taken result executor call finished =>
          refine .inr ((step_case hm.step).replies hm.sound ⟨state, ?_, same⟩ ?_)
          · exact same.emergency.symm.trans cloud
          · rw [executor]
            rfl
      | handed t key lines idle => exact absurd idle state
      | started t header' idle => exact absurd idle state
      | called call eq executor =>
          have hstep : SameRequest m.pre.executor.header m.post.executor.header := by
            rw [executor]
            exact loop_sameRequest ..
          refine .inl ⟨same.trans hstep, hstep.emergency.trans cloud, ?_, hturn⟩
          rw [executor]
          intro hidle
          exact state ((loop_state_idle c.bus call.rx call.t₁ call.t₂ call.t₃ _).mp hidle)
    · exact absurd (hm.sound.idle_of_free hdispatch hbusy) state

/-- A pending request is taken to work when nothing is queued before it. -/
theorem Timed.takes_pending {b : BootInput} {header : GbbHeader} (hm : Timed P c m)
    (hrun : Runs P c (setup P b).1 es m.pre) (hp : Punctual d (es ++ [m]))
    (hf : InWindow d (es ++ [m])) (waiting : m.pre.pending = some header)
    (turn : Turnover c d (lastCall es) L m.pre) (hstarts : Starts m)
    (hcycle : m.pre.manager.state ≠ .queued) :
    AtWork c d (lastCall (es ++ [m])) header (L + (batchTime c d header.lines + 2 * d)) m.post := by
  cases hm.exec with
  | rest b executor call starts => exact absurd hstarts starts
  | taken result executor call finished starts => exact absurd hstarts starts
  | handed t key lines idle queued => exact absurd queued hcycle
  | started t header' idle queued waiting' executor manager call starts stage time =>
      obtain rfl : header = header' := Option.some.inj (waiting.symm.trans waiting')
      have hsame : SameRequest header m.post.executor.header := by
        rw [executor]
        exact start_sameRequest t header m.pre.executor
      have hcloud : m.post.executor.header.emergency = false :=
        hsame.emergency.trans (hm.sound.cloud header waiting)
      refine ⟨hsame, hcloud, ?_, ?_⟩
      · rw [executor]
        rcases start_state t header m.pre.executor with hs | hs <;> simp [hs]
      · exact turn.begun hrun (Runs.timed hrun) hp hf hstarts call idle executor time
  | called call eq executor starts => exact absurd hstarts starts

/-- Otherwise it stays where it is, unless a newer one replaces it. -/
theorem Timed.keeps_pending {header : GbbHeader} {fs : List Moment} (hm : Timed P c m)
    (pends : Pends header fs m.pre) (hstill : ∀ header', Event.started header' ∉ m.evs)
    (hnewer : ∀ header', Event.accepted header' ∉ m.evs) : Pends header (fs ++ [m]) m.post := by
  have hop : ∀ {op}, m.evs.filterMap pendingOp = [op] → ∃ ev ∈ m.evs, pendingOp ev = some op := by
    intro op hops
    refine List.mem_filterMap.mp ?_
    rw [hops]
    exact List.mem_singleton.mpr rfl
  constructor
  · cases (step_case hm.step).pending with
    | still ops pending => rw [pending, pends.waiting]
    | accepted header' ops =>
        obtain ⟨ev, hev, hput⟩ := hop ops
        cases ev <;> cases hput
        exact absurd hev (hnewer header')
    | started header' ops =>
        obtain ⟨ev, hev, htake⟩ := hop ops
        cases ev <;> cases htake
        exact absurd hev (hstill header')
  · intro y hy
    rcases List.mem_append.mp hy with hy | hy
    · exact pends.unstarted y hy
    · rw [List.mem_singleton.mp hy]
      exact hstill header

theorem Awaited.step {b : BootInput} {header : GbbHeader} {L₂ : Nat} {fs : List Moment}
    (h : Awaited c d (lastCall es) header L L₂ fs m.pre)
    (hL : L₂ = L + (batchTime c d header.lines + 2 * d))
    (hrun : Runs P c (setup P b).1 es m.pre) (hm : Timed P c m) (hp : Punctual d (es ++ [m]))
    (hf : InWindow d (es ++ [m])) (hd : c.bus.responseTimeoutMs.toNat + d < 2 ^ 31)
    (hfree : (∀ y ∈ fs, Event.started header ∉ y.evs) →
      m.pre.manager.state ≠ .queued ∧ ∀ header', Event.accepted header' ∉ m.evs) :
    Awaited c d (lastCall (es ++ [m])) header L L₂ (fs ++ [m]) m.post ∨ Replies P c header m := by
  have ht := Runs.timed hrun
  cases h with
  | pending pends turn =>
      obtain ⟨hcycle, hnewer⟩ := hfree pends.unstarted
      by_cases hstarts : Starts m
      · have hwork := hm.takes_pending hrun hp hf pends.waiting turn hstarts hcycle
        rw [← hL] at hwork
        exact .inl (.inHand hwork.same hwork.cloud hwork.state hwork.turn)
      · rcases turn.step hm ht hp hd hstarts with hturn | hidle
        · have hstill : ∀ header', Event.started header' ∉ m.evs :=
            fun _ hev => hstarts ⟨_, hev, rfl⟩
          exact .inl (.pending (hm.keeps_pending pends hstill hnewer) hturn)
        · exact absurd (hm.dispatches hidle (.inr ⟨header, pends.waiting⟩)) hstarts
  | inHand same cloud state turn =>
      rcases AtWork.step ⟨same, cloud, state, turn⟩ ht hm hp hd with hwork | hreply
      · exact .inl (.inHand hwork.same hwork.cloud hwork.state hwork.turn)
      · exact .inr hreply

theorem Timed.not_accepted (hm : Timed P c m) (hnone : arrived P m = none) (header : GbbHeader) :
    Event.accepted header ∉ m.evs := by
  intro hev
  rw [hm.step.arrived hm.sound hev] at hnone
  cases hnone

/-- An accepted request waits, and the turn it waits for is that of the batch in
the executor. -/
theorem Runs.begins_waiting {b : BootInput} {header : GbbHeader}
    (hrun : Runs P c (setup P b).1 es m.pre) (hm : Step P c m)
    (hacc : arrived P m = some header) (hp : Punctual d (es ++ [m]))
    (hf : InWindow d (es ++ [m])) (hd : c.bus.responseTimeoutMs.toNat + d < 2 ^ 31) :
    Pends header [] m.post ∧ Turnover c d (lastCall (es ++ [m]))
      (m.post.now + (batchTime c d m.post.executor.header.lines + 2 * d)) m.post := by
  obtain ⟨payload, wall, o, hact, hparsed⟩ := arrived_iff.mp hacc
  have houtside : m.post.stage ≠ .execute := by
    have hstage : m.post.stage = m.act.next m.pre.stage := congrArg (fun r => r.1.stage) hm.2
    rw [hstage, hact]
    simp [Act.next]
  exact ⟨⟨(hm.taken hact hparsed).1, by simp⟩,
    Runs.turnover (.snoc hrun hm) hp hf hd houtside⟩

/-- What holds after a move of a punctual run, and is kept by every move since,
holds at its end, which comes in time. -/
theorem Runs.punctual_since {b : BootInput} {before after : List Moment}
    {A : LoopCall → List Moment → World → Prop}
    (h : Runs P c (setup P b).1 (before ++ m :: after) w)
    (hp : Punctual d (before ++ m :: after)) (hf : InWindow d (before ++ m :: after))
    (hstart : A (lastCall (before ++ [m])) [] m.post)
    (hstep : ∀ es fs x, Runs P c (setup P b).1 es x.pre → Timed P c x →
      Punctual d (es ++ [x]) → InWindow d (es ++ [x]) → A (lastCall es) fs x.pre →
      A (lastCall (es ++ [x])) (fs ++ [x]) x.post) :
    w.now ≤ (lastCall (before ++ m :: after)).t₁ + d ∧
      A (lastCall (before ++ m :: after)) after w := by
  obtain ⟨hbefore, hm, hafter⟩ := h.at
  have hrun₁ : Runs P c (setup P b).1 (before ++ [m]) m.post := .snoc hbefore hm
  refine hafter.history (H := fun fs u => Punctual d (before ++ m :: fs) →
    InWindow d (before ++ m :: fs) → u.now ≤ (lastCall (before ++ m :: fs)).t₁ + d ∧
      A (lastCall (before ++ m :: fs)) fs u) ?_ ?_ hp hf
  · intro hp _
    have htimed : Timed P c m :=
      ⟨hm, Runs.sound hbefore, hm.exec (Runs.sound hbefore), hm.now_le⟩
    exact ⟨hp.now_le (Runs.timed hbefore) htimed, hstart⟩
  · intro fs x hfs ih hx hp hf
    have hsplit : before ++ m :: (fs ++ [x]) = (before ++ m :: fs) ++ [x] := by
      rw [List.append_assoc, List.cons_append]
    rw [hsplit] at hp hf ⊢
    have hruns : Runs P c (setup P b).1 (before ++ m :: fs) x.pre := by
      rw [List.append_cons]
      exact hrun₁.append hfs
    have htimed : Timed P c x :=
      ⟨hx, Runs.sound hruns, hx.exec (Runs.sound hruns), hx.now_le⟩
    exact ⟨hp.now_le (Runs.timed hruns) htimed,
      hstep _ fs x hruns htimed hp hf (ih hp.of_append hf.of_append).2⟩

/-- What each move keeps until the request is answered, as long as `Free` holds
of the moves before its start, is kept until then. -/
theorem Runs.awaits {b : BootInput} {before after : List Moment} {header : GbbHeader}
    {A : LoopCall → List Moment → World → Prop} {Free : Moment → Prop}
    (h : Runs P c (setup P b).1 (before ++ m :: after) w)
    (hp : Punctual d (before ++ m :: after)) (hf : InWindow d (before ++ m :: after))
    (hstart : A (lastCall (before ++ [m])) [] m.post)
    (hstep : ∀ es fs x, Runs P c (setup P b).1 es x.pre → Timed P c x →
      Punctual d (es ++ [x]) → InWindow d (es ++ [x]) →
      ((∀ y ∈ fs, Event.started header ∉ y.evs) → Free x) → A (lastCall es) fs x.pre →
      A (lastCall (es ++ [x])) (fs ++ [x]) x.post ∨ Replies P c header x)
    (hfree : ∀ x, BeforeStart header after x → Free x) :
    (w.now ≤ (lastCall (before ++ m :: after)).t₁ + d ∧
      A (lastCall (before ++ m :: after)) after w) ∨ ∃ x ∈ after, Replies P c header x := by
  have hall := Runs.punctual_since (A := fun a fs u => (∀ x, BeforeStart header fs x → Free x) →
    A a fs u ∨ ∃ x ∈ fs, Replies P c header x) h hp hf (fun _ => .inl hstart) ?_
  · exact (hall.2 hfree).imp (fun hwait => ⟨hall.1, hwait⟩) id
  · intro es fs x hruns hx hp hf ih hfree
    rcases ih fun y hy => hfree y hy.append with hwait | ⟨y, hy, hreply⟩
    · rcases hstep es fs x hruns hx hp hf (fun hno => hfree x (.last hno)) hwait with
        hwait | hreply
      · exact .inl hwait
      · exact .inr ⟨x, by simp, hreply⟩
    · exact .inr ⟨y, List.mem_append_left _ hy, hreply⟩

/-- A cloud request that, until it is started, no newer one replaces and no send
cycle delays is answered within the time of the batch it finds in the executor,
its own time, and four turns of the loop. -/
theorem request_answered_in_time {b : BootInput} {before after : List Moment}
    {header : GbbHeader} (h : Runs P c (setup P b).1 (before ++ m :: after) w)
    (hp : Punctual d (before ++ m :: after)) (hf : InWindow d (before ++ m :: after))
    (hd : c.bus.responseTimeoutMs.toNat + d < 2 ^ 31) (hacc : arrived P m = some header)
    (hfree : ∀ x, BeforeStart header after x →
      x.pre.manager.state ≠ .queued ∧ arrived P x = none)
    (hlate : m.post.now + (batchTime c d m.post.executor.header.lines +
      batchTime c d header.lines + 4 * d) < w.now) :
    ∃ x ∈ after, Replies P c header x := by
  obtain ⟨hbefore, hm, -⟩ := h.at
  have hp₁ := hp
  have hf₁ := hf
  rw [List.append_cons] at hp₁ hf₁
  obtain ⟨hpends, hturn⟩ :=
    Runs.begins_waiting hbefore hm hacc hp₁.of_append hf₁.of_append hd
  generalize hL₁ : m.post.now + (batchTime c d m.post.executor.header.lines + 2 * d) = L₁ at hturn
  generalize hL₂ : L₁ + (batchTime c d header.lines + 2 * d) = L₂
  have hall := Runs.awaits (A := fun a fs u => Awaited c d a header L₁ L₂ fs u) h hp hf
    (.pending hpends hturn)
    (fun es fs x hruns hx hp hf hfree hwait => hwait.step hL₂.symm hruns hx hp hf hd
      fun hno => (hfree hno).imp id hx.not_accepted) hfree
  rcases hall with ⟨hnow, hwait⟩ | hreply
  · exfalso
    cases hwait with
    | pending pends turn =>
        have hin := turn.now_le hnow
        omega
    | inHand same cloud state turn =>
        have hin := turn.now_le hnow
        omega
  · exact hreply

/-- A request for one register meets a silent inverter, on a device whose loop
comes round every two seconds. -/
def lonelyDevice : Platform := bench [requestDoc "7" "01030204000345B2"]

def lonelyRun : List Moment × World :=
  performAll lonelyDevice {}
    ([arrives (requestDoc "7" "01030204000345B2") (clockAt 1 0)] ++
      (List.replicate 10 (callAfter 2000 [] (clockAt 1 0))).flatten)
    (setup lonelyDevice unplugged).1

def lonelyHeader : GbbHeader where
  hasOrderId := true
  orderId := text "7"
  lines := [{ lineNo := 1, hasModbus := true, modbus := text "01030204000345B2" }]

theorem request_answered_in_time_lonely :
    ∃ x ∈ lonelyRun.1.drop 1, Replies lonelyDevice {} lonelyHeader x := by
  have hlen : 0 < lonelyRun.1.length := by decide +kernel
  have hacc : arrived lonelyDevice lonelyRun.1[0] = some lonelyHeader := by decide +kernel +revert
  have hrun : Runs lonelyDevice {} (setup lonelyDevice unplugged).1 lonelyRun.1 lonelyRun.2 :=
    performAll_runs rfl
  have hpunctual : Punctual 2000 lonelyRun.1 := by decide +kernel
  have hwindow : InWindow 2000 lonelyRun.1 := by decide +kernel
  have hnewer : ∀ x ∈ lonelyRun.1.drop 1, arrived lonelyDevice x = none := by
    decide +kernel
  have hidle : ∀ x ∈ lonelyRun.1, x.pre.manager.state = .empty := by decide +kernel
  have hcut := pick_one lonelyRun.1 0 hlen
  rw [hcut] at hrun hpunctual hwindow
  refine request_answered_in_time hrun hpunctual hwindow (by decide) hacc ?_ ?_
  · intro x hx
    have hmem : x ∈ lonelyRun.1 := List.mem_of_mem_drop hx.mem
    refine ⟨?_, hnewer x hx.mem⟩
    rw [hidle x hmem]
    nofun
  · clear hacc hrun hpunctual hwindow hnewer hidle hcut
    decide +kernel +revert

end Gbb
