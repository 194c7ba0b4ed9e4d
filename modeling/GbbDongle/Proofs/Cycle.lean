import GbbDongle.Lib.Cursor
import GbbDongle.Proofs.Bench
import GbbDongle.Proofs.Events

/-!
# A send cycle

A cycle opens when `start_next_set` takes a set with the walk at its start, and
closes when `handle_result` leaves QUEUED and EXECUTING behind. In between the
walk over the store is a cursor over a set that messages change, and the bus
carries nothing but the lines of the sets the walk has come by: `Underway` says
both, and is what every step of a cycle keeps.
-/

namespace Gbb

open History Wrap EmergencyManager ModbusExecutor

variable {P : Platform} {c : Config} {m : Moment}

/-- The step in which `start_next_set` hands the first set over. -/
def StartsCycle (m : Moment) : Prop := ∃ key lines, Event.handed true key lines ∈ m.evs

/-- The step in which `handle_result` moves the manager out of the cycle. -/
def EndsCycle (m : Moment) : Prop :=
  ∃ key next, Event.resultHandled key next ∈ m.evs ∧ next ≠ .queued

/-- The sets handed to the executor in a stretch of a run, in order. -/
def handedSets (es : List Moment) : List (Bytes × List GbbLine) :=
  (es.flatMap Move.evs).filterMap fun
    | .handed _ key lines => some (key, lines)
    | _ => none

def handedKeys (es : List Moment) : List Bytes := (handedSets es).map Prod.fst

/-- The moves of a cycle, from the step that starts it up to at most the step
that ends it. -/
def Cycle (cycle : List Moment) : Prop :=
  ∃ start during, cycle = start :: during ∧ StartsCycle start ∧
    ∀ m ∈ during.dropLast, ¬ EndsCycle m

instance (m : Moment) : Decidable (StartsCycle m) :=
  decidable_of_iff (m.evs.any fun | .handed true _ _ => true | _ => false) <| by
    rw [List.any_eq_true]
    constructor
    · rintro ⟨ev, hmem, hev⟩
      split at hev
      · exact ⟨_, _, hmem⟩
      · cases hev
    · rintro ⟨key, lines, hmem⟩
      exact ⟨_, hmem, rfl⟩

instance (m : Moment) : Decidable (EndsCycle m) :=
  decidable_of_iff (m.evs.any fun | .resultHandled _ next => next != .queued | _ => false) <| by
    rw [List.any_eq_true]
    constructor
    · rintro ⟨ev, hmem, hev⟩
      split at hev
      · exact ⟨_, _, hmem, by simpa using hev⟩
      · cases hev
    · rintro ⟨key, next, hmem, hne⟩
      exact ⟨_, hmem, by simpa using hne⟩

instance : (cycle : List Moment) → Decidable (Cycle cycle)
  | [] => .isFalse fun ⟨_, _, h, _⟩ => nomatch h
  | start :: during =>
      decidable_of_iff (StartsCycle start ∧ ∀ m ∈ during.dropLast, ¬ EndsCycle m) <| by
        constructor
        · exact fun h => ⟨start, during, rfl, h⟩
        · rintro ⟨_, _, h, hc⟩
          obtain ⟨rfl, rfl⟩ := List.cons.inj h
          exact hc

/-- The keys that are stored at every step of a stretch. -/
def keptKeys (es : List Moment) : Set Bytes := {key | ∀ m ∈ es, key ∈ m.pre.sets.keys}

/-! ## What is handed over -/

theorem handedSets_append (es fs : List Moment) :
    handedSets (es ++ fs) = handedSets es ++ handedSets fs := by
  rw [handedSets, List.flatMap_append, List.filterMap_append]
  rfl

theorem handedSets_eq_nil (h : ∀ first key lines, Event.handed first key lines ∉ m.evs) :
    handedSets [m] = [] := by
  rw [handedSets, List.flatMap_singleton, List.filterMap_eq_nil_iff]
  intro ev hev
  cases ev with
  | handed first key lines => exact absurd hev (h first key lines)
  | _ => rfl

theorem handedSets_of_handed {first : Bool} {key : Bytes} {lines : List GbbLine} {t : Nat}
    {e : ModbusExecutor}
    (hevs : m.evs = .handed first key lines :: (e.start t (runHeader key lines)).2) :
    handedSets [m] = [(key, lines)] := by
  rw [handedSets, List.flatMap_singleton, hevs, List.filterMap_cons, List.filterMap_eq_nil_iff.mpr]
  intro ev hev
  have hk := (start_kind hev).1
  cases ev <;> first | rfl | cases hk

/-- What a move that hands a set over did. -/
structure HandsOver (m : Moment) (key : Bytes) (lines : List GbbLine) : Prop where
  sets : handedSets [m] = [(key, lines)]
  queued : m.pre.manager.state = .queued
  next : m.pre.manager.nextEntry = some (key, lines)
  executing : m.post.manager.state = .executing
  currentKey : m.post.manager.currentKey = key
  currentRevision : m.post.manager.currentRevision = m.pre.manager.store.revision key
  store : m.post.manager.store = m.pre.manager.store
  evs : ∃ t, m.post.executor = (m.pre.executor.start t (runHeader key lines)).1 ∧
    m.evs = .handed m.pre.manager.walkFromStart key lines ::
      (m.pre.executor.start t (runHeader key lines)).2

theorem handsOver_of_handed (hm : StepCase P c m) (hw : Sound m.pre) {first : Bool} {key : Bytes}
    {lines : List GbbLine} (hev : Event.handed first key lines ∈ m.evs) :
    HandsOver m key lines ∧ m.pre.manager.walkFromStart = first := by
  cases hm.source hw hev with
  | handed t _ _ _ hfirst hqueued hnext hexecutor hmanager hevs =>
      exact ⟨⟨handedSets_of_handed hevs, hqueued, hnext, by rw [hmanager], by rw [hmanager],
        by rw [hmanager], by rw [hmanager], t, hexecutor, hevs⟩, hfirst.symm⟩
  | bus hk => cases hk
  | flash hk => cases hk
  | checked _ _ _ _ _ hk => cases hk
  | link hk => cases hk

/-- A move hands over one set or none. -/
theorem handedSets_step (hm : StepCase P c m) (hw : Sound m.pre) :
    (handedSets [m] = [] ∧ ∀ first key lines, Event.handed first key lines ∉ m.evs) ∨
      ∃ key lines, HandsOver m key lines := by
  by_cases h : ∃ first key lines, Event.handed first key lines ∈ m.evs
  · obtain ⟨first, key, lines, hev⟩ := h
    exact .inr ⟨key, lines, (handsOver_of_handed hm hw hev).1⟩
  · simp only [not_exists] at h
    exact .inl ⟨handedSets_eq_nil h, h⟩

/-! ## One set on the bus -/

/-- `handle_result` ran in this step. -/
def HandlesResult (m : Moment) : Prop := ∃ key next, Event.resultHandled key next ∈ m.evs

instance (m : Moment) : Decidable (HandlesResult m) :=
  decidable_of_iff (m.evs.any fun | .resultHandled _ _ => true | _ => false) <| by
    rw [List.any_eq_true]
    constructor
    · rintro ⟨ev, hmem, hev⟩
      split at hev
      · exact ⟨_, _, hmem⟩
      · cases hev
    · rintro ⟨key, next, hmem⟩
      exact ⟨_, hmem, rfl⟩

theorem answeredLines_eq_nil {evs : List Event} (h : ∀ ev ∈ evs, ev.kind ≠ .bus) :
    answeredLines evs = [] := by
  rw [answeredLines, List.filterMap_eq_nil_iff]
  intro ev hev
  have hk := h ev hev
  cases ev <;> first | rfl | exact absurd rfl hk

/-- What a move that does not handle the result leaves of a set on the bus. -/
structure Carries (m : Moment) : Prop where
  executing : m.post.manager.state = .executing
  currentKey : m.post.manager.currentKey = m.pre.manager.currentKey
  currentRevision : m.post.manager.currentRevision = m.pre.manager.currentRevision
  batch : ∀ orig answered, Batch orig answered m.pre.executor →
    Batch orig (answered ++ answeredLines m.evs) m.post.executor

/-- A set on the bus leaves the manager EXECUTING until its result is handled. -/
theorem executing_manager (hm : StepCase P c m) (hw : Sound m.pre)
    (hx : m.pre.manager.state = .executing) :
    (m.post.manager.state = .executing ∧
      m.post.manager.currentKey = m.pre.manager.currentKey ∧
      m.post.manager.currentRevision = m.pre.manager.currentRevision) ∨ HandlesResult m := by
  cases hm with
  | quiet b executor manager => exact .inl (by rw [manager]; exact ⟨hx, rfl, rfl⟩)
  | message payload wall o header act parsed executor manager =>
      have hf := handleFields_handled P c.emergency wall o header m.pre.manager m.pre.flash
      rw [← manager] at hf
      refine .inl ⟨?_, hf.currentKey, hf.currentRevision⟩
      rw [hf.state, stateAfter_executing]
      exact hx
  | toggled on o act executor manager => exact .inl (by rw [manager]; exact ⟨hx, rfl, rfl⟩)
  | handled t info wait o act result emergency executor manager pending flash persist evs =>
      refine .inr ⟨m.pre.manager.currentKey, m.post.manager.state, ?_⟩
      rw [evs, manager]
      exact List.mem_append_right _ (List.mem_singleton.mpr rfl)
  | finished info wait o act result emergency =>
      rw [(hw.owner.mp hx).2] at emergency
      cases emergency
  | handed t key lines free queued =>
      rw [hx] at queued
      cases queued
  | strayed free queued =>
      rw [hx] at queued
      cases queued
  | started t header free queued waiting executor manager pending flash evs stage =>
      exact absurd hx (hw.not_executing_of_idle (hw.idle_of_free stage.1 free))
  | executed rx wait₁ wait₂ wait₃ t₁ t₂ t₃ act executor manager =>
      exact .inl (by rw [manager]; exact ⟨hx, rfl, rfl⟩)
  | checked wait₁ wait₂ t wall lastCheck act due executor check =>
      obtain ⟨manager, -⟩ := checkTrigger_still check (.inl hx)
      exact .inl (by rw [manager]; exact ⟨hx, rfl, rfl⟩)

/-- While a set is on the bus, a step carries it on or handles its result. -/
theorem carries_or_handlesResult (hm : StepCase P c m) (hw : Sound m.pre) (hw' : Sound m.post)
    (hx : m.pre.manager.state = .executing) : Carries m ∨ HandlesResult m := by
  rcases executing_manager hm hw hx with ⟨hx', hkey, hrev⟩ | hres
  · refine .inl ⟨hx', hkey, hrev, fun orig answered hb => ?_⟩
    cases hm.bus hw with
    | rest executor silent =>
        rw [answeredLines_eq_nil silent, List.append_nil]
        rcases executor with ⟨b, executor⟩ | ⟨-, executor⟩
        · rw [executor]
          exact hb.hint b
        · refine absurd ?_ (hw'.owner.mp hx').1
          rw [executor]
          rfl
    | start t header first notBus idle => exact absurd idle (hw.owner.mp hx).1
    | loop rx t₁ t₂ t₃ executor evs =>
        rw [executor, evs]
        exact hb.loop
  · exact .inr hres

/-! ## The cycle under way -/

structure Underway (cycle : List Moment) (w : World) : Prop where
  state : w.manager.state = .executing ∨
    (w.manager.state = .queued ∧ w.manager.walkFromStart = false)
  last : ∃ sets lines, handedSets cycle = sets ++ [(w.manager.currentKey, lines)] ∧
    (w.manager.state = .executing → ∃ answered, Batch lines answered w.executor)
  walk : Cursor.Walk (keptKeys cycle) (handedKeys cycle)

theorem keptKeys_snoc_subset (es : List Moment) : keptKeys (es ++ [m]) ⊆ keptKeys es :=
  fun _ hkey x hx => hkey x (List.mem_append_left _ hx)

theorem keptKeys_subset_stored (es : List Moment) : keptKeys (es ++ [m]) ⊆ m.pre.sets.keys :=
  fun _ hkey => hkey m (by simp)

theorem HandsOver.batch {key : Bytes} {lines : List GbbLine} (h : HandsOver m key lines) :
    Batch lines [] m.post.executor := by
  obtain ⟨t, hexecutor, -⟩ := h.evs
  rw [hexecutor]
  exact (start_batch t (runHeader key lines) m.pre.executor).1

/-- The first set of a cycle is the least key of the store. -/
theorem Underway.start (hm : StepCase P c m) (hw : Sound m.pre) (hs : StartsCycle m) :
    Underway [m] m.post := by
  obtain ⟨key, lines, hev⟩ := hs
  obtain ⟨hand, hwalk⟩ := handsOver_of_handed hm hw hev
  refine ⟨.inl hand.executing, ⟨[], lines, ?_, fun _ => ⟨[], hand.batch⟩⟩, ?_⟩
  · rw [hand.sets, hand.currentKey]
    rfl
  · have hnext := hand.next
    rw [nextEntry, if_pos hwalk] at hnext
    have hleast := (OrdMap.first?_eq_some hnext).2
    rw [handedKeys, hand.sets]
    have hleast' : IsLeast (m.pre.sets.keys ∩ Cursor.ahead []) key :=
      ⟨⟨hleast.1, by simp [Cursor.ahead]⟩, fun x hx => hleast.2 hx.1⟩
    exact Cursor.Walk.nil.visit (keptKeys_subset_stored []) hleast'

/-- A later set is the least key past the one before it. -/
theorem Underway.hand {cycle : List Moment} {key : Bytes} {lines : List GbbLine}
    (h : Underway cycle m.pre) (hand : HandsOver m key lines) :
    Underway (cycle ++ [m]) m.post := by
  obtain ⟨sets, lines', hlast, -⟩ := h.last
  have hwalk : m.pre.manager.walkFromStart = false := by
    rcases h.state with hx | hx
    · rw [hand.queued] at hx
      cases hx
    · exact hx.2
  have hsets : handedSets (cycle ++ [m]) = handedSets cycle ++ [(key, lines)] := by
    rw [handedSets_append, hand.sets]
  refine ⟨.inl hand.executing, ⟨handedSets cycle, lines, ?_, fun _ => ⟨[], hand.batch⟩⟩, ?_⟩
  · rw [hsets, hand.currentKey]
  · have hnext := hand.next
    rw [nextEntry, hwalk] at hnext
    have hleast := (OrdMap.upperBound?_eq_some hnext).2
    have hold := h.walk.anti (keptKeys_snoc_subset (m := m) cycle)
    have hkeys : handedKeys cycle = sets.map Prod.fst ++ [m.pre.manager.currentKey] := by
      rw [handedKeys, hlast, List.map_append]
      rfl
    have hleast' : IsLeast (m.pre.sets.keys ∩ Cursor.ahead (handedKeys cycle)) key := by
      rw [hkeys] at hold ⊢
      refine ⟨⟨hleast.1.1, hold.mem_ahead.mpr hleast.1.2⟩, fun x hx => ?_⟩
      exact hleast.2 ⟨hx.1, hold.mem_ahead.mp hx.2⟩
    rw [handedKeys, hsets, List.map_append]
    exact hold.visit (keptKeys_subset_stored cycle) hleast'

/-- A step that hands nothing over and leaves the walk where it is. -/
theorem Underway.keep {cycle : List Moment} (h : Underway cycle m.pre)
    (hsets : handedSets [m] = []) (hkey : m.post.manager.currentKey = m.pre.manager.currentKey)
    (hstate : m.post.manager.state = .executing ∨
      (m.post.manager.state = .queued ∧ m.post.manager.walkFromStart = false))
    (hbatch : m.post.manager.state = .executing → m.pre.manager.state = .executing ∧
      ∀ orig answered, Batch orig answered m.pre.executor →
        ∃ answered', Batch orig answered' m.post.executor) :
    Underway (cycle ++ [m]) m.post := by
  obtain ⟨sets, lines, hlast, hb⟩ := h.last
  have hsets' : handedSets (cycle ++ [m]) = handedSets cycle := by
    rw [handedSets_append, hsets, List.append_nil]
  refine ⟨hstate, ⟨sets, lines, by rw [hsets', hlast, hkey], fun hx => ?_⟩, ?_⟩
  · obtain ⟨hx', hnext⟩ := hbatch hx
    obtain ⟨answered, hb⟩ := hb hx'
    exact hnext _ _ hb
  · rw [handedKeys, hsets']
    exact h.walk.anti (keptKeys_snoc_subset cycle)

/-- Every step keeps the cycle under way, unless it ends it. -/
theorem Underway.step {cycle : List Moment} (h : Underway cycle m.pre) (hm : StepCase P c m)
    (hw : Sound m.pre) (hw' : Sound m.post) (hend : ¬ EndsCycle m) :
    Underway (cycle ++ [m]) m.post := by
  rcases handedSets_step hm hw with ⟨hsets, hno⟩ | ⟨key, lines, hand⟩
  · rcases h.state with hx | ⟨hq, hwalk⟩
    · rcases carries_or_handlesResult hm hw hw' hx with hc | ⟨key, next, hev⟩
      · exact h.keep hsets hc.currentKey (.inl hc.executing) fun _ =>
          ⟨hx, fun orig answered hb => ⟨_, hc.batch orig answered hb⟩⟩
      · obtain ⟨-, -, -, hleft, t, o, hmanager⟩ := hm.of_resultHandled hw hev
        have hl := handleResult_left P c.emergency t o m.pre.executor.header m.pre.manager
          m.pre.flash
        rw [← hmanager] at hl
        have hq : m.post.manager.state = .queued := by
          by_contra hne
          exact hend ⟨key, next, hev, by rw [hleft]; exact hne⟩
        refine h.keep hsets hl.currentKey (.inr ⟨hq, ?_⟩) fun hx' => ?_
        · rw [hl.walkFromStart]
          exact hw.walking hx
        · rw [hq] at hx'
          cases hx'
    · -- between two sets the loop is at its dispatch, and nothing but the log hook gets in
      have hidle := (hw.nextSet hq hwalk).1
      have hstage : m.pre.stage = .dispatch := by
        by_contra hs
        rw [hw.opening hs hq] at hwalk
        cases hwalk
      have hclash : ∀ {s : Stage}, m.pre.stage = s → s = .dispatch := fun hs => hs ▸ hstage
      cases hm with
      | quiet b executor manager =>
          refine h.keep hsets (by rw [manager]) (by rw [manager]; exact h.state) fun hx => ?_
          rw [manager, hq] at hx
          cases hx
      | message _ _ _ _ _ _ _ _ _ _ _ _ stage => cases hclash stage.1
      | toggled _ _ _ _ _ _ _ _ _ stage => cases hclash stage.1
      | handled _ _ _ _ _ _ _ _ _ _ _ _ _ stage => cases hclash stage.1
      | finished _ _ _ _ _ _ _ _ _ _ _ stage => cases hclash stage.1
      | handed t key lines free queued next executor manager pending flash evs =>
          exact absurd (by rw [evs]; exact List.mem_cons_self) (hno _ _ _)
      | strayed free queued next =>
          obtain ⟨entry, he⟩ := hw.nextEntry queued
          rw [next] at he
          cases he
      | started t header free queued => exact absurd hq queued
      | executed _ _ _ _ _ _ _ _ _ _ _ _ _ stage => cases hclash stage.1
      | checked _ _ _ _ _ _ _ _ _ _ _ stage => cases hclash stage.1
  · exact h.hand hand

theorem Runs.underway {b : BootInput} {before during : List Moment} {start : Moment} {w : World}
    (h : Runs P c (setup P b).1 (before ++ start :: during) w) (hs : StartsCycle start)
    (hends : ∀ m ∈ during, ¬ EndsCycle m) : Underway (start :: during) w := by
  obtain ⟨-, hstart, hrun⟩ := h.guarded.at
  refine hrun.history (H := fun es w => (∀ x ∈ es, ¬ EndsCycle x) → Underway (start :: es) w)
    (fun _ => .start hstart.1 hstart.2.1 hs) (fun es m _ ih hm hes => ?_) hends
  have hu := ih fun x hx => hes x (List.mem_append_left _ hx)
  exact hu.step hm.1 hm.2.1 hm.2.2.1 (hes m (by simp))

/-! ## The bus -/

/-- What the bus carries at a step of a cycle: no cloud request is let in, and
a frame belongs to a set the cycle has come by. -/
def OwnsBus (sets : List (Bytes × List GbbLine)) (m : Moment) : Prop :=
  (∀ header, Event.started header ∉ m.evs) ∧
    ∀ t frame, Event.wrote t frame ∈ m.evs →
      ∃ set ∈ sets, ∃ line ∈ (runHeader set.1 set.2).lines,
        line.carries = true ∧ hexDecode line.modbus = some frame

theorem OwnsBus.mono {sets sets' : List (Bytes × List GbbLine)} (h : OwnsBus sets m)
    (hsub : ∀ set ∈ sets, set ∈ sets') : OwnsBus sets' m := by
  refine ⟨h.1, fun t frame hev => ?_⟩
  obtain ⟨set, hset, hline⟩ := h.2 t frame hev
  exact ⟨set, hsub set hset, hline⟩

theorem HandsOver.ownsBus {key : Bytes} {lines : List GbbLine} (h : HandsOver m key lines)
    (sets : List (Bytes × List GbbLine)) : OwnsBus sets m := by
  obtain ⟨t, -, hevs⟩ := h.evs
  have hkind : ∀ ev ∈ m.evs,
      ev.kind = .cycle ∨ (ev.kind = .bus ∧ ∀ t frame, ev ≠ .wrote t frame) := by
    intro ev hev
    rw [hevs] at hev
    rcases List.mem_cons.mp hev with rfl | hev
    · exact .inl rfl
    · exact .inr ⟨(start_kind hev).1, (start_kind hev).2.1⟩
  refine ⟨fun header hev => ?_, fun t frame hev => ?_⟩
  · rcases hkind _ hev with hk | ⟨hk, -⟩ <;> cases hk
  · rcases hkind _ hev with hk | ⟨-, hk⟩
    · cases hk
    · exact absurd rfl (hk t frame)

theorem Underway.ownsBus {cycle : List Moment} (h : Underway cycle m.pre) (hm : StepCase P c m)
    (hw : Sound m.pre) : OwnsBus (handedSets cycle) m := by
  refine ⟨fun header hev => ?_, fun t frame hev => ?_⟩
  · cases hm.source hw hev with
    | started t _ hfree hqueued =>
        rcases h.state with hx | ⟨hq, -⟩
        · exact hw.not_executing_of_idle hfree hx
        · exact hqueued hq
    | bus hk => cases hk
    | flash hk => cases hk
    | checked _ _ _ _ _ hk => cases hk
    | link hk => cases hk
  · obtain ⟨hstate, hown, -⟩ := hm.of_wrote hw hev
    have hx : m.pre.manager.state = .executing := by
      rcases h.state with hx | ⟨hq, hwalk⟩
      · exact hx
      · rw [(hw.nextSet hq hwalk).1] at hstate
        cases hstate
    obtain ⟨sets, lines, hlast, hb⟩ := h.last
    obtain ⟨answered, hb⟩ := hb hx
    obtain ⟨line, hmem, hc, hhex⟩ := hb.frame hstate
    refine ⟨(m.pre.manager.currentKey, lines), by rw [hlast]; simp, line, hmem, hc, ?_⟩
    rw [hown, hhex]

/-- Any step of a cycle, with what the cycle was up to there. -/
theorem Runs.ownsBus {b : BootInput} {before cycle after : List Moment} {w : World}
    (h : Runs P c (setup P b).1 (before ++ cycle ++ after) w) (hc : Cycle cycle)
    (hmem : m ∈ cycle) : OwnsBus (handedSets cycle) m := by
  obtain ⟨start, during, rfl, hs, hends⟩ := hc
  rw [List.append_assoc] at h
  rcases List.mem_cons.mp hmem with rfl | hmem
  · obtain ⟨-, hm, -⟩ := h.guarded.at
    obtain ⟨key, lines, hev⟩ := hs
    exact (handsOver_of_handed hm.1 hm.2.1 hev).1.ownsBus _
  · obtain ⟨d₁, d₂, rfl⟩ := List.append_of_mem hmem
    have hends' : ∀ x ∈ d₁, ¬ EndsCycle x := fun x hx => hends x (by
      rw [List.dropLast_append_of_ne_nil (List.cons_ne_nil _ _)]
      exact List.mem_append_left _ hx)
    have hrun : Runs P c (setup P b).1 ((before ++ start :: d₁) ++ m :: (d₂ ++ after)) w := by
      simpa using h
    obtain ⟨-, hm, -⟩ := hrun.guarded.at
    have hu := Runs.underway hrun.at.1 hs hends'
    refine (hu.ownsBus hm.1 hm.2.1).mono fun set hset => ?_
    rw [← List.cons_append, handedSets_append]
    exact List.mem_append_left _ hset

/-- From the step that hands its first set over to the step that ends it, an
emergency cycle owns the bus; a cloud request that comes in meanwhile waits for
the end. -/
theorem cycle_atomic {b : BootInput} {es : List Moment} {w : World}
    (h : Runs P c (setup P b).1 es w) :
    (∀ before cycle after, es = before ++ cycle ++ after → Cycle cycle →
      ∀ m ∈ cycle, OwnsBus (handedSets cycle) m) ∧
    ∀ before start d₁ accepting d₂ starting after,
      es = before ++ start :: d₁ ++ accepting :: d₂ ++ starting :: after → StartsCycle start →
      (∀ m ∈ d₁ ++ [accepting], ¬ EndsCycle m) →
      (∃ header, Event.accepted header ∈ accepting.evs) →
      (∃ header, Event.started header ∈ starting.evs) → ∃ m ∈ d₂, EndsCycle m := by
  refine ⟨?_, ?_⟩
  · rintro before cycle after rfl hc m hm
    exact Runs.ownsBus h hc hm
  · rintro before start d₁ accepting d₂ starting after rfl hs hends - ⟨header, hstarted⟩
    by_contra hno
    simp only [not_exists, not_and] at hno
    have hc : Cycle (start :: (d₁ ++ accepting :: d₂ ++ [starting])) := by
      refine ⟨start, _, rfl, hs, fun x hx => ?_⟩
      rw [List.dropLast_concat] at hx
      rcases List.mem_append.mp hx with hx | hx
      · exact hends x (by simp [hx])
      · rcases List.mem_cons.mp hx with rfl | hx
        · exact hends x (by simp)
        · exact hno x hx
    have hrun : Runs P c (setup P b).1
        (before ++ (start :: (d₁ ++ accepting :: d₂ ++ [starting])) ++ after) w := by
      simpa using h
    exact (Runs.ownsBus hrun hc (by simp)).1 header hstarted

/-- The moves of the cycle on the bench. -/
def nightCycle : List Moment := (nightRun.drop 10).take 31

theorem cycle_atomic_night :
    Cycle nightCycle ∧ ∀ m ∈ nightCycle, OwnsBus (handedSets nightCycle) m := by
  have hc : Cycle nightCycle := by decide +kernel
  exact ⟨hc, (cycle_atomic (performAll_runs rfl)).1 _ _ _ (cut_eq nightRun 10 31) hc⟩

/-! ## The walk -/

/-- The step that ends a cycle: nothing is handed over, and nothing is left past
the set that ran last. -/
theorem EndsCycle.leaves (hm : StepCase P c m) (hw : Sound m.pre) (h : EndsCycle m) :
    handedSets [m] = [] ∧ ∀ key ∈ m.pre.sets.keys ∪ m.post.sets.keys,
      key ≤ m.pre.manager.currentKey := by
  obtain ⟨key, next, hev, hne⟩ := h
  obtain ⟨hx, -, -, hleft, t, o, hmanager⟩ := hm.of_resultHandled hw hev
  have hl := handleResult_left P c.emergency t o m.pre.executor.header m.pre.manager m.pre.flash
  rw [← hmanager] at hl
  have hpost : ∀ key ∈ m.post.sets.keys, key ≤ m.pre.manager.currentKey := by
    rw [← hl.currentKey]
    refine OrdMap.upperBound?_eq_none.mp ?_
    cases hu : m.post.manager.store.sets.upperBound? m.post.manager.currentKey with
    | none => rfl
    | some entry => exact absurd (hleft.trans (hl.goesOn.mpr ⟨entry, hu⟩)) hne
  refine ⟨?_, fun key hkey => ?_⟩
  · rcases handedSets_step hm hw with ⟨hnil, -⟩ | ⟨key, lines, hand⟩
    · exact hnil
    · rw [hand.queued] at hx
      cases hx
  · rcases hkey with hkey | hkey
    · by_contra hlt
      refine hlt (hpost key ?_)
      show m.post.manager.store.sets.find? key ≠ none
      rcases hl.sets with hs | hs
      · rw [hs]
        exact hkey
      · rw [hs, OrdMap.find?_erase_ne (fun h => hlt (le_of_eq h))]
        exact hkey
    · exact hpost key hkey

/-- A cycle of a run, cut before its last step. -/
theorem Runs.cycle_cut {b : BootInput} {before cycle after : List Moment} {w : World}
    (h : Runs P c (setup P b).1 (before ++ cycle ++ after) w) (hc : Cycle cycle) :
    ∃ sofar last, cycle = sofar ++ [last] ∧ StepCase P c last ∧ Sound last.pre ∧
      Sound last.post ∧ ((sofar = [] ∧ StartsCycle last) ∨ Underway sofar last.pre) := by
  obtain ⟨start, during, rfl, hs, hends⟩ := hc
  rcases List.eq_nil_or_concat during with rfl | ⟨d, last, rfl⟩
  · rw [List.append_assoc] at h
    obtain ⟨-, hm, -⟩ := h.guarded.at
    exact ⟨[], start, rfl, hm.1, hm.2.1, hm.2.2.1, .inl ⟨rfl, hs⟩⟩
  · rw [List.concat_eq_append, List.dropLast_concat] at hends
    have hrun : Runs P c (setup P b).1 ((before ++ start :: d) ++ last :: after) w := by
      simpa using h
    obtain ⟨-, hm, -⟩ := hrun.guarded.at
    refine ⟨start :: d, last, by simp, hm.1, hm.2.1, hm.2.2.1, .inr ?_⟩
    exact Runs.underway hrun.at.1 hs hends

theorem Runs.cycle_walk {b : BootInput} {before cycle after : List Moment} {w : World}
    (h : Runs P c (setup P b).1 (before ++ cycle ++ after) w) (hc : Cycle cycle) :
    Cursor.Walk (keptKeys cycle) (handedKeys cycle) := by
  obtain ⟨sofar, last, rfl, hm, hw, hw', hu⟩ := Runs.cycle_cut h hc
  rcases hu with ⟨rfl, hs⟩ | hu
  · exact (Underway.start hm hw hs).walk
  · by_cases hend : EndsCycle last
    · rw [handedKeys, handedSets_append, (hend.leaves hm hw).1, List.append_nil]
      exact hu.walk.anti (keptKeys_snoc_subset sofar)
    · exact (hu.step hm hw hw' hend).walk

/-- A cycle walks the store in increasing order, hands over what is stored, and
meets every set that stays once. -/
theorem cycle_covers_store {b : BootInput} {es : List Moment} {w : World}
    (h : Runs P c (setup P b).1 es w) :
    ∀ before cycle after, es = before ++ cycle ++ after → Cycle cycle →
      (handedKeys cycle).Pairwise (· < ·) ∧
      (∀ m ∈ cycle, ∀ first key lines, Event.handed first key lines ∈ m.evs →
        m.pre.sets.find? key = some lines) ∧
      ∀ sofar stop, cycle = sofar ++ [stop] → EndsCycle stop →
        (∀ key, (∀ m ∈ cycle, ∃ lines, m.pre.sets.find? key = some lines) →
          (handedKeys cycle).count key = 1) ∧
        ∃ last, (handedKeys cycle).getLast? = some last ∧
          ∀ key lines, stop.post.sets.find? key = some lines → key ≤ last := by
  rintro before cycle after rfl hc
  have hwalk := Runs.cycle_walk h hc
  refine ⟨hwalk.increasing, fun m hm first key lines hev => ?_, fun sofar stop hcut hend => ?_⟩
  · obtain ⟨d₁, d₂, rfl⟩ := List.append_of_mem hm
    have hrun : Runs P c (setup P b).1 ((before ++ d₁) ++ m :: (d₂ ++ after)) w := by
      simpa using h
    obtain ⟨-, hm, -⟩ := hrun.guarded.at
    exact nextEntry_find? (handsOver_of_handed hm.1 hm.2.1 hev).1.next
  · obtain ⟨sofar', stop', hcut', hm, hw, -, hu⟩ := Runs.cycle_cut h hc
    obtain ⟨rfl, hstop⟩ := List.append_inj' (hcut'.symm.trans hcut) rfl
    obtain rfl := List.singleton_inj.mp hstop
    obtain ⟨hnil, hpast⟩ := hend.leaves hm hw
    rcases hu with ⟨-, key, lines, hev⟩ | hu
    · have hsets := (handsOver_of_handed hm hw hev).1.sets
      rw [hnil] at hsets
      cases hsets
    · obtain ⟨sets, lines, hlast, -⟩ := hu.last
      have hkeys : handedKeys cycle = sets.map Prod.fst ++ [stop'.pre.manager.currentKey] := by
        rw [hcut, handedKeys, handedSets_append, hnil, List.append_nil, hlast, List.map_append]
        rfl
      refine ⟨fun key hkey => hwalk.finish (fun x hx => ?_) fun m hm => ?_,
        stop'.pre.manager.currentKey, ?_, fun key lines hf => hpast key (.inr ?_)⟩
      · rw [hkeys] at hwalk ⊢
        rw [hwalk.mem_ahead, not_lt]
        exact hpast x (.inl (hx stop' (by rw [hcut]; simp)))
      · obtain ⟨lines, hf⟩ := hkey m hm
        exact fun hnone => by rw [hf] at hnone; cases hnone
      · rw [hkeys, List.getLast?_concat]
      · exact fun hnone => by rw [hf] at hnone; cases hnone

/-- Both sets of the night went out, each once. -/
theorem cycle_covers_store_night :
    handedKeys nightCycle = [text "A", text "B"] ∧
      (handedKeys nightCycle).count (text "B") = 1 := by
  have hc : Cycle nightCycle := by decide +kernel
  have hcovers := cycle_covers_store (performAll_runs rfl) _ _ _ (cut_eq nightRun 10 31) hc
  have hne : nightCycle ≠ [] := by decide +kernel
  have hend : EndsCycle (nightCycle.getLast hne) := by decide +kernel +revert
  have hkept : ∀ m ∈ nightCycle, (m.pre.sets.find? (text "B")).isSome = true := by decide +kernel
  refine ⟨by decide +kernel, ?_⟩
  exact (hcovers.2.2 _ _ (List.dropLast_append_getLast hne).symm hend).1 _
    fun m hm => Option.isSome_iff_exists.mp (hkept m hm)

end Gbb
