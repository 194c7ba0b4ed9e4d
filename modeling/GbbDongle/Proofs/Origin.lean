import GbbDongle.Proofs.Agreement
import GbbDongle.Proofs.Protocol

/-!
# Where lines come from

Lines reach the executor by two ways, the pending slot and the store, and both
are filled by messages alone. So whatever is true of the line vectors in the
messages a run accepts, and of those that boot restores, is true of everything
the device keeps, and of every batch the executor begins. `Keeps` is stated for
any property of a vector of lines.
-/

namespace Gbb

open History EmergencyManager ModbusExecutor

variable {P : Platform} {c : Config} {m : Moment} {es : List Moment} {w : World}
  {A : List GbbLine → Prop}

/-- Every vector of lines the device keeps satisfies `A`. -/
structure Keeps (A : List GbbLine → Prop) (w : World) : Prop where
  pending : ∀ header, w.pending = some header → A header.lines
  sets : ∀ key lines, w.sets.find? key = some lines → A lines

/-- Every vector of lines that a message brings satisfies `A`; an empty
`LinesOnNoInvSetup` is no set, it clears one. -/
def Brings (A : List GbbLine → Prop) (m : Moment) : Prop :=
  ∀ header, Event.accepted header ∈ m.evs →
    A header.lines ∧ (header.linesOnNoInvSetup ≠ [] → A header.linesOnNoInvSetup)

theorem find?_storedBy {header : GbbHeader} {s : EmergencyStore} {k : Bytes} {lines : List GbbLine}
    (h : (storedBy header s).sets.find? k = some lines) :
    s.sets.find? k = some lines ∨
      header.linesOnNoInvSetup ≠ [] ∧ lines = header.linesOnNoInvSetup := by
  rw [storedBy] at h
  split at h
  · by_cases hne : k = header.setKey
    · subst hne
      have hc := EmergencyStore.setLines_case header.setKey header.linesOnNoInvSetup s
      generalize s.setLines header.setKey header.linesOnNoInvSetup = r at hc h
      cases hc with
      | absent => exact .inl h
      | cleared =>
          rw [show (s.clear header.setKey).sets.find? header.setKey = none from
            OrdMap.find?_erase_self] at h
          cases h
      | same => exact .inl h
      | stored hstored =>
          rw [show (s.put header.setKey header.linesOnNoInvSetup).sets.find? header.setKey =
            some header.linesOnNoInvSetup from OrdMap.find?_insert_self] at h
          exact .inr ⟨hstored, (Option.some.inj h).symm⟩
    · rw [EmergencyStore.setLines_sets_ne hne] at h
      exact .inl h
  · exact .inl h

/-- What is left of the sets was there before. -/
theorem Keeps.of_subset {w' : World} (hk : Keeps A w) (pending : w'.pending = w.pending)
    (hsets : ∀ key lines, w'.sets.find? key = some lines → w.sets.find? key = some lines) :
    Keeps A w' := by
  constructor
  · intro header hp
    rw [pending] at hp
    exact hk.pending header hp
  · intro key lines h
    exact hk.sets key lines (hsets key lines h)

theorem Keeps.same {w' : World} (hk : Keeps A w) (pending : w'.pending = w.pending)
    (sets : w'.sets = w.sets) : Keeps A w' :=
  hk.of_subset pending fun key lines h => by rwa [sets] at h

theorem StepCase.keeps (hm : StepCase P c m) (hk : Keeps A m.pre) (hb : Brings A m) :
    Keeps A m.post := by
  cases hm with
  | quiet b executor manager pending =>
      exact hk.same pending (congrArg (fun g : EmergencyManager => g.store.sets) manager)
  | message payload wall o header act parsed executor manager pending flash persist evs =>
      have hacc : Event.accepted header ∈ m.evs := by
        rw [evs]
        simp
      obtain ⟨hlines, hset⟩ := hb header hacc
      have hh := handleFields_handled P c.emergency wall o header m.pre.manager m.pre.flash
      rw [← manager] at hh
      have hsets : m.post.sets = (storedBy header m.pre.manager.store).sets := hh.store.sets
      constructor
      · intro header' hp
        rw [pending] at hp
        rwa [← Option.some.inj hp]
      · intro key lines h
        rw [hsets] at h
        rcases find?_storedBy h with h | ⟨hne, rfl⟩
        · exact hk.sets key lines h
        · exact hset hne
  | toggled on o act executor manager pending =>
      refine hk.same pending ?_
      have hsets := congrArg (fun g : EmergencyManager => g.store.sets) manager
      exact hsets.trans EmergencyStore.setPersistEnabled_sets
  | handled t info wait o act result emergency executor manager pending =>
      have hl := handleResult_left P c.emergency t o m.pre.executor.header m.pre.manager m.pre.flash
      rw [← manager] at hl
      rcases hl.sets with hs | hs
      · exact hk.same pending hs
      · have hsets : m.post.sets = m.pre.sets.erase m.pre.manager.currentKey := hs
        refine hk.of_subset pending fun key lines h => ?_
        rw [hsets] at h
        by_cases hne : key = m.pre.manager.currentKey
        · rw [hne, OrdMap.find?_erase_self] at h
          cases h
        · rwa [OrdMap.find?_erase_ne hne] at h
  | finished info wait o act result emergency executor manager pending =>
      exact hk.same pending (congrArg (fun g : EmergencyManager => g.store.sets) manager)
  | handed t key lines free queued next executor manager pending =>
      have hsets := congrArg (fun g : EmergencyManager => g.store.sets) manager
      exact hk.same pending hsets
  | strayed free queued next executor manager pending =>
      have hsets := congrArg (fun g : EmergencyManager => g.store.sets) manager
      exact hk.same pending hsets
  | started t header free queued waiting executor manager pending =>
      constructor
      · intro header' hp
        rw [pending] at hp
        cases hp
      · intro key lines h
        have hsets : m.post.sets = m.pre.sets :=
          congrArg (fun g : EmergencyManager => g.store.sets) manager
        rw [hsets] at h
        exact hk.sets key lines h
  | executed rx wait₁ wait₂ wait₃ t₁ t₂ t₃ act executor manager pending =>
      exact hk.same pending (congrArg (fun g : EmergencyManager => g.store.sets) manager)
  | checked wait₁ wait₂ t wall lastCheck act due executor check pending =>
      exact hk.same pending (congrArg EmergencyStore.sets check.kept.store)

/-! ## Boot -/

/-- Turning persistence on before anything is stored only notes it. -/
theorem setPersistEnabled_blank (P : Platform) (o : NvsOutcome) (flash : Flash) :
    EmergencyStore.setPersistEnabled P o true {} flash = ({ persistEnabled := true }, flash, []) := by
  cases ho : o.opens <;> simp [EmergencyStore.setPersistEnabled, EmergencyStore.syncNvs, ho,
    OrdMap.isEmpty, OrdMap.empty]

/-- Boot restores nothing, or what it reads in flash. -/
theorem setup_sets (P : Platform) (b : BootInput) :
    (setup P b).1.sets = .empty ∨
      ∃ blob, b.flash = some blob ∧ parseEmergencySets P blob .empty = some (setup P b).1.sets := by
  show (({} : EmergencyManager).setup P b.nvsSync b.nvsLoad b.persistSwitch b.flash).1.store.sets =
      .empty ∨ ∃ blob, b.flash = some blob ∧ parseEmergencySets P blob .empty =
        some (({} : EmergencyManager).setup P b.nvsSync b.nvsLoad b.persistSwitch b.flash).1.store.sets
  cases hp : b.persistSwitch with
  | none => exact .inl rfl
  | some on =>
      cases on with
      | false => exact .inl rfl
      | true =>
          have hloaded : (({} : EmergencyManager).setup P b.nvsSync b.nvsLoad (some true)
              b.flash).1.store = (EmergencyStore.loadFromNvs P b.nvsLoad
                { persistEnabled := true } b.flash).2.1 := by
            rw [EmergencyManager.setup, setPersistEnabled_blank]
            dsimp only
            split <;> rfl
          rw [hloaded]
          have hc := EmergencyStore.loadFromNvs_case P b.nvsLoad { persistEnabled := true } b.flash
          generalize EmergencyStore.loadFromNvs P b.nvsLoad { persistEnabled := true } b.flash = r
            at hc ⊢
          cases hc with
          | nothing => exact .inl rfl
          | dropped => exact .inl rfl
          | restored blob sets hflash hread hparse => exact .inr ⟨blob, hflash, hparse⟩

/-- Every set that is read satisfies what every array of lines read does. -/
theorem parseSets_find? {elems : List Json} {out sets : Sets} (h : parseSets elems out = some sets)
    (hread : ∀ o ∈ elems, ∀ lines, parseLinesMember (o.member "Lines") = some lines →
      A (lines.getD []))
    (hout : ∀ key lines, out.find? key = some lines → A lines) :
    ∀ key lines, sets.find? key = some lines → A lines := by
  induction elems generalizing out with
  | nil =>
      obtain rfl := Option.some.inj h
      exact hout
  | cons o rest ih =>
      rw [parseSets] at h
      cases hparse : parseLinesMember (o.member "Lines") with
      | none =>
          rw [hparse] at h
          cases h
      | some lines =>
          rw [hparse] at h
          refine ih h (fun o' ho' => hread o' (by simp [ho'])) fun key ls hfind => ?_
          split at hfind
          · exact hout key ls hfind
          · by_cases hkey : key = (o.member "SubInverterSN").asStr?.getD []
            · rw [hkey, OrdMap.find?_insert_self] at hfind
              rw [← Option.some.inj hfind]
              exact hread o (by simp) lines hparse
            · rw [OrdMap.find?_insert_ne hkey] at hfind
              exact hout key ls hfind

theorem parseEmergencySets_find? {blob : Bytes} {sets : Sets}
    (h : parseEmergencySets P blob .empty = some sets)
    (hread : ∀ j lines, parseLinesMember j = some lines → A (lines.getD [])) :
    ∀ key lines, sets.find? key = some lines → A lines := by
  simp only [parseEmergencySets, Option.bind_eq_bind, Option.bind_eq_some_iff] at h
  obtain ⟨root, -, elems, -, hsets⟩ := h
  refine parseSets_find? hsets (fun o _ lines => hread _ lines) fun key lines hfind => ?_
  cases hfind

/-! ## Fifty lines -/

/-- `MAX_LINES_PER_ARRAY` at most. -/
def Short (lines : List GbbLine) : Prop := lines.length ≤ maxLinesPerArray

theorem parseLinesMember_short {j : Json} {lines : Option (List GbbLine)}
    (h : parseLinesMember j = some lines) : Short (lines.getD []) := (parseLinesMember_spec h).1

theorem acceptedHeader_short {payload : Bytes} {header : GbbHeader}
    (h : acceptedHeader P payload = some header) :
    Short header.lines ∧ Short header.linesOnNoInvSetup := by
  rw [acceptedHeader] at h
  split at h
  · cases h
  · simp only [parseHeader, Option.bind_eq_bind, Option.bind_eq_some_iff] at h
    obtain ⟨root, -, lines, hlines, noInv, hnoInv, h⟩ := h
    obtain rfl := Option.some.inj h
    exact ⟨parseLinesMember_short hlines, parseLinesMember_short hnoInv⟩

theorem StepCase.brings_short (hm : StepCase P c m) (hw : Sound m.pre) : Brings Short m := by
  intro header hacc
  cases hm.source hw hacc with
  | accepted payload wall o header' act parsed =>
      obtain ⟨hlines, hset⟩ := acceptedHeader_short parsed
      exact ⟨hlines, fun _ => hset⟩
  | bus hk => cases hk
  | flash hk => cases hk
  | checked _ _ _ _ _ hk => cases hk
  | link hk => cases hk

/-- No vector of lines the device keeps is longer than a message may bring. -/
theorem Runs.keepsShort {b : BootInput} (h : Runs P c (setup P b).1 es w) : Keeps Short w := by
  refine (Runs.guarded h).invariant (I := Keeps Short) ⟨?_, ?_⟩ fun m hm hk =>
    hm.1.keeps hk (hm.1.brings_short hm.2.1)
  · intro header hp
    cases hp
  · intro key lines hfind
    rcases setup_sets P b with hnone | ⟨blob, -, hparse⟩
    · rw [hnone] at hfind
      cases hfind
    · exact parseEmergencySets_find? hparse (fun _ _ => parseLinesMember_short) key lines hfind

/-! ## The executor -/

/-- The call of `loop` that a move is. -/
def callOf (m : Moment) : Option LoopCall :=
  match m.act with
  | .execute rx wait₁ wait₂ wait₃ =>
      some ⟨rx, m.pre.now + wait₁, m.pre.now + wait₁ + wait₂, m.pre.now + wait₁ + wait₂ + wait₃⟩
  | _ => none

/-- What a move is to the executor: nothing, a result taken, a batch begun for
the manager or for the cloud, or a call of its `loop`. -/
inductive ExecCase (c : Config) (m : Moment) : Prop
  | rest (b : UInt32) (executor : m.post.executor = { m.pre.executor with baudRateHint := b })
      (call : callOf m = none) (starts : ¬ Starts m) (silent : ∀ ev ∈ m.evs, ev.kind ≠ .bus)
  | taken (result : m.pre.executor.state = .done)
      (executor : m.post.executor = m.pre.executor.takeResult.2) (call : callOf m = none)
      (finished : m.pre.executor.header.emergency = false →
        Event.finished m.pre.executor.header ∈ m.evs)
      (starts : ¬ Starts m) (stage : m.pre.stage = .poll ∧ m.post.stage = .dispatch)
      (silent : ∀ ev ∈ m.evs, ev.kind ≠ .bus)
  | handed (t : Nat) (key : Bytes) (lines : List GbbLine) (idle : m.pre.executor.state = .idle)
      (queued : m.pre.manager.state = .queued)
      (next : m.pre.manager.nextEntry = some (key, lines))
      (executor : m.post.executor = (m.pre.executor.start t (runHeader key lines)).1)
      (manager : m.post.manager = { m.pre.manager with
        walkFromStart := false
        currentKey := key
        currentRevision := m.pre.manager.store.revision key
        runs := m.pre.manager.runs + 1
        state := .executing })
      (call : callOf m = none) (starts : Starts m)
      (stage : m.pre.stage = .dispatch ∧ m.post.stage = .execute)
      (time : m.pre.now ≤ t ∧ t ≤ m.post.now)
      (evs : m.evs = .handed m.pre.manager.walkFromStart key lines ::
        (m.pre.executor.start t (runHeader key lines)).2)
  | started (t : Nat) (header : GbbHeader) (idle : m.pre.executor.state = .idle)
      (queued : m.pre.manager.state ≠ .queued) (waiting : m.pre.pending = some header)
      (executor : m.post.executor = (m.pre.executor.start t header).1)
      (manager : m.post.manager = m.pre.manager)
      (call : callOf m = none) (starts : Starts m)
      (stage : m.pre.stage = .dispatch ∧ m.post.stage = .execute)
      (time : m.pre.now ≤ t ∧ t ≤ m.post.now)
      (evs : m.evs = .started header :: (m.pre.executor.start t header).2)
  | called (call : LoopCall) (eq : callOf m = some call)
      (executor : m.post.executor = (poll c.bus call m.pre.executor).1) (starts : ¬ Starts m)
      (manager : m.post.manager = m.pre.manager) (pending : m.post.pending = m.pre.pending)
      (stage : m.pre.stage = .execute ∧ m.post.stage = .keepalive)
      (time : m.pre.now ≤ call.t₁ ∧ call.t₁ ≤ call.t₂ ∧ call.t₂ ≤ call.t₃ ∧ call.t₃ = m.post.now)
      (evs : m.evs = (poll c.bus call m.pre.executor).2)

theorem Event.not_isStart {ev : Event} (h : ev.kind ≠ .cycle) (h' : ev.kind ≠ .cloud) :
    ev.isStart = false := by
  cases ev <;> first | rfl | exact absurd rfl h | exact absurd rfl h'

theorem not_starts (h : ∀ ev ∈ m.evs, ev.isStart = false) : ¬ Starts m := by
  rintro ⟨ev, hev, hs⟩
  rw [h ev hev] at hs
  cases hs

/-- An event that neither begins a batch nor is one of the bus. -/
def Event.Idle (ev : Event) : Prop := ev.isStart = false ∧ ev.kind ≠ .bus

theorem Event.idle_of_kind {ev : Event} (h : ev.kind = .flash ∨ ev.kind = .wall) : ev.Idle := by
  rcases h with h | h
  · exact ⟨Event.not_isStart (by simp [h]) (by simp [h]), by simp [h]⟩
  · exact ⟨Event.not_isStart (by simp [h]) (by simp [h]), by simp [h]⟩

theorem Step.exec (hm : Step P c m) (hw : Sound m.pre) : ExecCase c m := by
  cases hcall : callOf m with
  | some call =>
      obtain ⟨w, a, evs, w'⟩ := m
      obtain ⟨hfits, hpost⟩ := hm
      rw [callOf] at hcall
      split at hcall
      · next rx wait₁ wait₂ wait₃ ha =>
          obtain rfl : a = .execute rx wait₁ wait₂ wait₃ := ha
          obtain rfl := Option.some.inj hcall
          obtain rfl : w' = (Act.perform P c (.execute rx wait₁ wait₂ wait₃) w).1 :=
            congrArg Prod.fst hpost
          obtain rfl : evs = (Act.perform P c (.execute rx wait₁ wait₂ wait₃) w).2 :=
            congrArg Prod.snd hpost
          refine .called _ rfl rfl ?_ rfl rfl ⟨by simpa [Act.fits] using hfits, rfl⟩ ?_ rfl
          · refine not_starts fun ev hev => ?_
            have hkind := loop_kind hev
            exact Event.not_isStart (by rw [hkind]; decide) (by rw [hkind]; decide)
          · refine ⟨Nat.le_add_right _ _, Nat.le_add_right _ _, Nat.le_add_right _ _, ?_⟩
            show w.now + wait₁ + wait₂ + wait₃ = w.now + (wait₁ + wait₂ + wait₃)
            omega
      · cases hcall
  | none =>
      have hrest : ∀ {b : UInt32}, m.post.executor = { m.pre.executor with baudRateHint := b } →
          (∀ ev ∈ m.evs, ev.Idle) → ExecCase c m := fun h hs =>
        .rest _ h hcall (not_starts fun ev hev => (hs ev hev).1) fun ev hev => (hs ev hev).2
      have hsame : m.post.executor = m.pre.executor → (∀ ev ∈ m.evs, ev.Idle) → ExecCase c m :=
        fun h hs => hrest (b := m.pre.executor.baudRateHint) h hs
      cases step_case hm with
      | quiet b executor manager pending flash evs =>
          refine hrest executor fun ev hev => ?_
          rcases evs ev hev with rfl | rfl <;> exact ⟨rfl, by simp [Event.kind]⟩
      | message payload wall o header act parsed executor manager pending flash persist evs =>
          refine hsame executor fun ev hev => ?_
          rw [evs] at hev
          rcases List.mem_append.mp hev with hev | hev
          · exact Event.idle_of_kind (handleFields_kind hev).symm
          · rw [List.mem_singleton.mp hev]
            exact ⟨rfl, by simp [Event.kind]⟩
      | toggled on o act executor manager pending flash persist evs =>
          refine hsame executor fun ev hev => ?_
          rw [evs] at hev
          exact Event.idle_of_kind (.inl (nvs_kind (EmergencyStore.setPersistEnabled_isNvs hev)))
      | handled t info wait o act result emergency executor manager pending flash persist evs
          stage =>
          have hidle : ∀ ev ∈ m.evs, ev.Idle := by
            intro ev hev
            rw [evs] at hev
            rcases handleResult_evs hev with rfl | h
            · exact ⟨rfl, by simp [Event.kind]⟩
            · exact Event.idle_of_kind (.inl h)
          refine .taken result executor hcall (fun h => ?_)
            (not_starts fun ev hev => (hidle ev hev).1) stage fun ev hev => (hidle ev hev).2
          rw [emergency] at h
          cases h
      | finished info wait o act result emergency executor manager pending flash evs stage =>
          have hidle : ∀ ev ∈ m.evs, ev.Idle := by
            intro ev hev
            rw [evs] at hev
            rcases List.mem_cons.mp hev with rfl | hev
            · exact ⟨rfl, by simp [Event.kind]⟩
            · rw [Option.mem_toList, Option.map_eq_some_iff] at hev
              obtain ⟨payload, -, rfl⟩ := hev
              exact ⟨rfl, by simp [Event.kind]⟩
          exact .taken result executor hcall (fun _ => by rw [evs]; simp)
            (not_starts fun ev hev => (hidle ev hev).1) stage fun ev hev => (hidle ev hev).2
      | handed t key lines free queued next executor manager pending flash evs stage time =>
          have hstart : Starts m :=
            ⟨.handed m.pre.manager.walkFromStart key lines, by rw [evs]; simp, rfl⟩
          exact .handed t key lines (hw.idle_of_free stage.1 free) queued next executor manager
            hcall hstart stage time evs
      | strayed free queued next executor manager pending flash evs =>
          refine hsame executor fun ev hev => ?_
          rw [evs] at hev
          cases hev
      | started t header free queued waiting executor manager pending flash evs stage time =>
          have hstart : Starts m := ⟨.started header, by rw [evs]; simp, rfl⟩
          exact .started t header (hw.idle_of_free stage.1 free) queued waiting executor manager
            hcall hstart stage time evs
      | executed rx wait₁ wait₂ wait₃ t₁ t₂ t₃ act =>
          rw [callOf, act] at hcall
          cases hcall
      | checked wait₁ wait₂ t wall lastCheck act due executor check =>
          exact hsame executor fun ev hev => Event.idle_of_kind (.inr (check_kind check hev))

end Gbb
