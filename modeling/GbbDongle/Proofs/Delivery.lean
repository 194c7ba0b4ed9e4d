import GbbDongle.Proofs.Cycle

/-!
# When a set is given up

A set leaves the store because the cloud says so, or because its own run was
confirmed. The executor reports on a run only through the lines it hands back:
a reply overwrites the payload of a line, a failure clears it. `handle_result`
reads delivery off these lines, and takes a line that carries an `Error` for one
that was not answered. That field is also one the cloud may have filled in, so
the reading is right for a run exactly when a line that came without it was
answered, if any was.
-/

namespace Gbb

open History EmergencyManager EmergencyStore ModbusExecutor

variable {P : Platform} {c : Config} {m : Moment} {es : List Moment} {w : World}
  {key : Bytes} {lines : List GbbLine}

/-! ## What a step makes of the store -/

/-- A `LinesOnNoInvSetup` message for `key`: the key is its trimmed
`SubInverterSN`. -/
def Addresses (P : Platform) (key : Bytes) (m : Moment) : Prop :=
  ∃ payload wall o header, m.act = .message payload wall o ∧
    acceptedHeader P payload = some header ∧ header.hasLinesOnNoInvSetup = true ∧
    header.setKey = key

inductive StoreCase (P : Platform) (m : Moment) : Prop
  | same (store : SameSets m.pre.manager.store m.post.manager.store)
      (noResult : ¬ HandlesResult m)
  | message (header : GbbHeader) (addresses : Addresses P header.setKey m)
      (store : SameSets (m.pre.manager.store.setLines header.setKey header.linesOnNoInvSetup).2
        m.post.manager.store)
      (noResult : ¬ HandlesResult m)
  | result (next : EmergencyState)
      (executing : m.pre.manager.state = .executing)
      (done : m.pre.executor.state = .done)
      (event : Event.resultHandled m.pre.manager.currentKey next ∈ m.evs)
      (store : SameSets
        (if m.pre.executor.header.lines.any answeredLine = true ∧
            m.pre.manager.store.revision m.pre.manager.currentKey = m.pre.manager.currentRevision
          then m.pre.manager.store.clear m.pre.manager.currentKey else m.pre.manager.store)
        m.post.manager.store)

theorem StepCase.store (hm : StepCase P c m) (hw : Sound m.pre) : StoreCase P m := by
  by_cases hres : HandlesResult m
  · obtain ⟨key, next, hev⟩ := hres
    obtain ⟨hx, hresult, hcurrent, -, t, o, hmanager⟩ := hm.of_resultHandled hw hev
    obtain ⟨s, d, hc, hs⟩ := confirm_cases P o m.pre.executor.header m.pre.manager m.pre.flash
    subst hcurrent
    refine .result next hx hresult hev ?_
    have hpost : m.post.manager.store = s := by
      rw [hmanager, handleResult, hc]
      exact leaveRun_store c.emergency t { m.pre.manager with store := s, delivered := d }
    rw [hpost]
    exact hs
  · cases hm with
    | quiet b executor manager => exact .same (by rw [manager]; exact ⟨rfl, rfl, rfl⟩) hres
    | message payload wall o header act parsed executor manager =>
        have hf := handleFields_handled P c.emergency wall o header m.pre.manager m.pre.flash
        rw [← manager] at hf
        by_cases hl : header.hasLinesOnNoInvSetup = true
        · have hstore := hf.store
          rw [storedBy, if_pos hl] at hstore
          exact .message header ⟨payload, wall, o, header, act, parsed, hl, rfl⟩ hstore hres
        · have hstore := hf.store
          rw [storedBy, if_neg hl] at hstore
          exact .same hstore hres
    | toggled on o act executor manager =>
        refine .same ?_ hres
        rw [manager]
        exact setPersistEnabled_sameSets P o on m.pre.manager.store m.pre.flash
    | handled t info wait o act result emergency executor manager pending flash persist evs =>
        refine absurd ⟨m.pre.manager.currentKey, m.post.manager.state, ?_⟩ hres
        rw [evs, manager]
        exact List.mem_append_right _ (List.mem_singleton.mpr rfl)
    | finished info wait o act result emergency executor manager =>
        exact .same (by rw [manager]; exact ⟨rfl, rfl, rfl⟩) hres
    | handed t key lines free queued next executor manager =>
        exact .same (by rw [manager]; exact ⟨rfl, rfl, rfl⟩) hres
    | strayed free queued next executor manager =>
        exact .same (by rw [manager]; exact ⟨rfl, rfl, rfl⟩) hres
    | started t header free queued waiting executor manager =>
        exact .same (by rw [manager]; exact ⟨rfl, rfl, rfl⟩) hres
    | executed rx wait₁ wait₂ wait₃ t₁ t₂ t₃ act executor manager =>
        exact .same (by rw [manager]; exact ⟨rfl, rfl, rfl⟩) hres
    | checked wait₁ wait₂ t wall lastCheck act due executor check =>
        refine .same ?_ hres
        rw [show m.post.manager.store = m.pre.manager.store from check.kept.store]
        exact ⟨rfl, rfl, rfl⟩

/-- A key changes only by a message that addresses it or in the result of its
own run. -/
theorem StoreCase.change (hs : StoreCase P m)
    (hne : m.post.sets.find? key ≠ m.pre.sets.find? key) :
    Addresses P key m ∨ ∃ next, Event.resultHandled key next ∈ m.evs := by
  cases hs with
  | same store => exact absurd (congrArg (OrdMap.find? · key) store.sets) hne
  | message header haddr store =>
      by_cases hkey : key = header.setKey
      · exact .inl (hkey ▸ haddr)
      · refine absurd ?_ hne
        show m.post.manager.store.sets.find? key = _
        rw [store.sets]
        exact setLines_sets_ne hkey
  | result next executing done event store =>
      by_cases hkey : key = m.pre.manager.currentKey
      · exact .inr ⟨next, hkey ▸ event⟩
      · refine absurd ?_ hne
        show m.post.manager.store.sets.find? key = _
        rw [store.sets]
        split
        · exact clear_sets_ne hkey
        · rfl

/-! ## What the executor reports -/

/-- A reply with a valid CRC was accepted. -/
def Answered (es : List Moment) : Prop :=
  ∃ t line frame, Event.answered t line frame ∈ es.flatMap Move.evs ∧ crcOk frame = true

/-- One of the lines that were answered had come without an `Error`. -/
def AnsweredClean (es : List Moment) : Prop :=
  ∃ t line frame, Event.answered t line frame ∈ es.flatMap Move.evs ∧ line.error = []

theorem mem_answeredLines {evs : List Event} {line : GbbLine} :
    line ∈ answeredLines evs ↔ ∃ t frame, Event.answered t line frame ∈ evs := by
  rw [answeredLines, List.mem_filterMap]
  constructor
  · rintro ⟨ev, hev, h⟩
    cases ev with
    | answered t l frame =>
        obtain rfl := Option.some.inj h
        exact ⟨t, frame, hev⟩
    | _ => cases h
  · rintro ⟨t, frame, hev⟩
    exact ⟨_, hev, rfl⟩

theorem not_answeredLine_of_cleared {rest : List GbbLine} :
    (rest.map clearModbus).any answeredLine = false := by
  rw [List.any_eq_false]
  intro l hl
  obtain ⟨l', -, rfl⟩ := List.mem_map.mp hl
  simp [answeredLine, clearModbus, GbbLine.carries]

/-- A settled line reads as answered when it was sent and had no error. -/
theorem answeredLine_settled {l l' : GbbLine} (h : Settled l l') :
    answeredLine l' = (l.carries && l.error.isEmpty) := by
  rcases h with ⟨hc, rfl⟩ | ⟨hc, frame, hlen, -, rfl⟩
  · rw [answeredLine, hc, Bool.and_false, Bool.false_and]
  · have hhex : (bytesToHex frame).isEmpty = false := by
      rw [List.isEmpty_eq_false_iff, ← List.length_pos_iff, length_bytesToHex]
      omega
    have hmod : l.hasModbus = true := by
      rw [GbbLine.carries, Bool.and_eq_true] at hc
      exact hc.1
    rw [hc, Bool.true_and, answeredLine]
    show (l.error.isEmpty && (l.hasModbus && !(bytesToHex frame).isEmpty)) = _
    rw [hmod, hhex]
    simp

theorem any_answeredLine_settled {pre settled : List GbbLine}
    (h : List.Forall₂ Settled pre settled) :
    settled.any answeredLine = (pre.filter GbbLine.carries).any fun l => l.error.isEmpty := by
  induction h with
  | nil => rfl
  | cons hl _ ih =>
      rw [List.any_cons, ih, answeredLine_settled hl, List.filter_cons]
      split
      · next hc => rw [hc, List.any_cons, Bool.true_and]
      · next hc =>
          rw [Bool.not_eq_true] at hc
          rw [hc, Bool.false_and, Bool.false_or]

/-- Delivery, as `handle_result` reads it off a batch that is done. -/
theorem delivered_iff {orig answered : List GbbLine} {e : ModbusExecutor}
    (hb : Batch orig answered e) (hd : e.state = .done) :
    e.header.lines.any answeredLine = true ↔ ∃ l ∈ answered, l.error = [] := by
  have hany : (∃ l ∈ answered, l.error = []) ↔
      (answered.any fun l => l.error.isEmpty) = true := by
    simp [List.any_eq_true]
  rw [hany]
  cases hb with
  | running _ _ _ _ _ _ _ _ _ _ _ hs => rcases hs with hs | hs <;> rw [hs] at hd <;> cases hd
  | through _ hset => rw [any_answeredLine_settled hset]
  | broken pre settled rest line fault _ hset _ _ hlines =>
      have hfail : answeredLine (failedLine fault line) = false := by
        simp [answeredLine, failedLine, clearModbus, GbbLine.carries]
      rw [hlines, List.any_append, List.any_cons, not_answeredLine_of_cleared, hfail,
        any_answeredLine_settled hset, Bool.or_false, Bool.or_false]

/-! ## The run of a set -/

/-- From the step that handed `key` over, through steps that handled no result. -/
structure OnBus (key : Bytes) (lines : List GbbLine) (revision : UInt32) (mid : List Moment)
    (w : World) : Prop where
  executing : w.manager.state = .executing
  currentKey : w.manager.currentKey = key
  currentRevision : w.manager.currentRevision = revision
  batch : Batch lines (answeredLines (mid.flatMap Move.evs)) w.executor
  kept : (∀ m ∈ mid, m.post.sets.find? key = some lines) →
    w.sets.find? key = some lines ∧ w.manager.store.revision key = revision
  valid : ∀ t line frame, Event.answered t line frame ∈ mid.flatMap Move.evs → crcOk frame = true

theorem OnBus.hand (hm : StepCase P c m) (hw : Sound m.pre) {first : Bool}
    (hev : Event.handed first key lines ∈ m.evs) :
    OnBus key lines (m.pre.manager.store.revision key) [] m.post := by
  obtain ⟨hand, -⟩ := handsOver_of_handed hm hw hev
  have hsets : m.post.sets = m.pre.sets := congrArg EmergencyStore.sets hand.store
  refine ⟨hand.executing, hand.currentKey, hand.currentRevision, hand.batch, fun _ => ⟨?_, ?_⟩,
    by simp⟩
  · rw [hsets]
    exact nextEntry_find? hand.next
  · rw [hand.store]

theorem OnBus.step {revision : UInt32} {mid : List Moment}
    (h : OnBus key lines revision mid m.pre) (hm : StepCase P c m) (hw : Sound m.pre)
    (hw' : Sound m.post) (hres : ¬ HandlesResult m) :
    OnBus key lines revision (mid ++ [m]) m.post := by
  rcases carries_or_handlesResult hm hw hw' h.executing with hc | hc
  · refine ⟨hc.executing, hc.currentKey.trans h.currentKey,
      hc.currentRevision.trans h.currentRevision, ?_, fun hkept => ?_, fun t line frame hev => ?_⟩
    · rw [List.flatMap_append, List.flatMap_singleton, answeredLines_append]
      exact hc.batch _ _ h.batch
    · obtain ⟨hfind, hrev⟩ := h.kept fun x hx => hkept x (List.mem_append_left _ hx)
      have hpost : m.post.sets.find? key = some lines := hkept m (by simp)
      refine ⟨hpost, ?_⟩
      cases hm.store hw with
      | same store => rw [store.revision, hrev]
      | message header haddr store =>
          rw [store.revision, ← hrev]
          refine setLines_revision hfind ?_
          rw [← store.sets]
          exact hpost
      | result next executing done event => exact absurd ⟨_, _, event⟩ hres
    · rw [List.flatMap_append, List.flatMap_singleton] at hev
      rcases List.mem_append.mp hev with hev | hev
      · exact h.valid t line frame hev
      · cases hm.source hw hev with
        | bus _ _ hvalid => exact hvalid t line frame rfl
        | flash hk => cases hk
        | checked _ _ _ _ _ hk => cases hk
        | link hk => cases hk
  · exact absurd hc hres

theorem Runs.onBus {b : BootInput} {before mid : List Moment} {hand : Moment} {first : Bool}
    (h : Runs P c (setup P b).1 (before ++ hand :: mid) w)
    (hev : Event.handed first key lines ∈ hand.evs) (hmid : ∀ m ∈ mid, ¬ HandlesResult m) :
    OnBus key lines (hand.pre.manager.store.revision key) mid w := by
  obtain ⟨-, hhand, hrun⟩ := h.guarded.at
  refine hrun.history (H := fun es w => (∀ m ∈ es, ¬ HandlesResult m) →
    OnBus key lines (hand.pre.manager.store.revision key) es w)
    (fun _ => .hand hhand.1 hhand.2.1 hev) (fun es m _ ih hm hes => ?_) hmid
  have hon := ih fun x hx => hes x (List.mem_append_left _ hx)
  exact hon.step hm.1 hm.2.1 hm.2.2.1 (hes m (by simp))

/-! ## The revision counter -/

/-- The step stores a set, under a fresh revision. -/
def GivesRevision (m : Moment) : Prop :=
  m.post.manager.store.nextRevision ≠ m.pre.manager.store.nextRevision

instance (m : Moment) : Decidable (GivesRevision m) := inferInstanceAs (Decidable (_ ≠ _))

/-- The revisions given out since boot, those of the restored sets included. -/
def revisionsGiven (P : Platform) (b : BootInput) (es : List Moment) : Nat :=
  (setup P b).1.sets.entries.length + es.countP GivesRevision

theorem revisionsGiven_snoc (b : BootInput) (es : List Moment) :
    revisionsGiven P b (es ++ [m]) = revisionsGiven P b es + if GivesRevision m then 1 else 0 := by
  rw [revisionsGiven, List.countP_append, List.countP_singleton, revisionsGiven, Nat.add_assoc]
  simp

/-- Where the revision of `key` stands, `n` revisions after `start` of them:
untouched, gone, or newer than anything given out by then. -/
structure Fresh (key : Bytes) (lines : List GbbLine) (start n : Nat) (untouched : Prop)
    (s : EmergencyStore) : Prop where
  numbered : Numbered n s
  le : start ≤ n
  key : (untouched ∧ s.sets.find? key = some lines) ∨ s.revisions.find? key = none ∨
    ∃ r, s.revisions.find? key = some r ∧ start < r.toNat

theorem Fresh.sameSets {start n : Nat} {u u' : Prop} {s s' : EmergencyStore}
    (h : Fresh key lines start n u s) (hs : SameSets s s')
    (hu : u → s'.sets.find? key = some lines → u') : Fresh key lines start n u' s' := by
  refine ⟨h.numbered.sameSets hs, h.le, ?_⟩
  rcases h.key with ⟨hu', hf⟩ | hrest
  · rw [← hs.sets] at hf
    exact .inl ⟨hu hu' hf, hf⟩
  · rw [hs.revisions]
    exact .inr hrest

theorem Fresh.clear {start n : Nat} {u u' : Prop} {s : EmergencyStore}
    (h : Fresh key lines start n u s) (k : Bytes)
    (hu : u → (s.clear k).sets.find? key = some lines → u') :
    Fresh key lines start n u' (s.clear k) := by
  refine ⟨h.numbered.clear k, h.le, ?_⟩
  by_cases hne : key = k
  · subst hne
    exact .inr (.inl OrdMap.find?_erase_self)
  · have hrev : (s.clear k).revisions.find? key = s.revisions.find? key := OrdMap.find?_erase_ne hne
    have hset : (s.clear k).sets.find? key = s.sets.find? key := OrdMap.find?_erase_ne hne
    rcases h.key with ⟨hu', hfind⟩ | hrest
    · rw [← hset] at hfind
      exact .inl ⟨hu hu' hfind, hfind⟩
    · rw [← hrev] at hrest
      exact .inr hrest

/-- `set_lines` on a numbered store: the counter moves exactly when it stores. -/
theorem Fresh.setLines {start n : Nat} {u u' : Prop} {s : EmergencyStore} {k : Bytes}
    {ls : List GbbLine} (h : Fresh key lines start n u s)
    (hlt : (n + if (s.setLines k ls).2.nextRevision ≠ s.nextRevision then 1 else 0) < 2 ^ 32)
    (hu : u → (s.setLines k ls).2.sets.find? key = some lines → u') :
    Fresh key lines start
      (n + if (s.setLines k ls).2.nextRevision ≠ s.nextRevision then 1 else 0) u'
      (s.setLines k ls).2 := by
  have hc := setLines_case k ls s
  generalize s.setLines k ls = r at hc hlt hu ⊢
  have hkeep : Fresh key lines start
      (n + if s.nextRevision ≠ s.nextRevision then 1 else 0) u s := by
    rw [if_neg (fun h => h rfl)]
    exact h
  cases hc with
  | absent => exact hkeep.sameSets ⟨rfl, rfl, rfl⟩ hu
  | same => exact hkeep.sameSets ⟨rfl, rfl, rfl⟩ hu
  | cleared old hnil hf => exact hkeep.clear k hu
  | stored hnil hdiff =>
      have hmoves : (s.put k ls).nextRevision ≠ s.nextRevision := by
        intro heq
        have htwo := congrArg UInt32.toNat heq
        have hn := h.numbered.counter
        rw [show (s.put k ls).nextRevision = s.nextRevision + 1 from rfl] at htwo
        rw [UInt32.toNat_add, hn] at htwo
        have h1 : (1 : UInt32).toNat = 1 := rfl
        have hn32 := s.nextRevision.toNat_lt
        omega
      rw [if_pos hmoves] at hlt ⊢
      refine ⟨h.numbered.put hlt k ls, Nat.le_succ_of_le h.le, ?_⟩
      by_cases hne : key = k
      · subst hne
        refine .inr (.inr ⟨s.nextRevision + 1, OrdMap.find?_insert_self, ?_⟩)
        have := toNat_next h.numbered.counter hlt
        have := h.le
        omega
      · have hrev : (s.put k ls).revisions.find? key = s.revisions.find? key :=
          OrdMap.find?_insert_ne hne
        have hset : (s.put k ls).sets.find? key = s.sets.find? key := OrdMap.find?_insert_ne hne
        rcases h.key with ⟨hu', hfind⟩ | hrest
        · rw [← hset] at hfind
          exact .inl ⟨hu hu' hfind, hfind⟩
        · rw [← hrev] at hrest
          exact .inr hrest

theorem Fresh.step {start n : Nat} {u u' : Prop} (h : Fresh key lines start n u m.pre.manager.store)
    (hs : StoreCase P m) (hlt : (n + if GivesRevision m then 1 else 0) < 2 ^ 32)
    (hu : u → m.post.sets.find? key = some lines → u') :
    Fresh key lines start (n + if GivesRevision m then 1 else 0) u' m.post.manager.store := by
  have hstill : m.post.manager.store.nextRevision = m.pre.manager.store.nextRevision →
      (n + if GivesRevision m then 1 else 0) = n := fun heq => by
    rw [if_neg (fun h => h heq), Nat.add_zero]
  cases hs with
  | same store =>
      rw [hstill store.nextRevision]
      exact h.sameSets store hu
  | message header addr store =>
      have hcount : (n + if GivesRevision m then 1 else 0) = n + if
          (m.pre.manager.store.setLines header.setKey header.linesOnNoInvSetup).2.nextRevision ≠
            m.pre.manager.store.nextRevision then 1 else 0 := by
        refine congrArg (n + ·) (if_congr ?_ rfl rfl)
        show m.post.manager.store.nextRevision ≠ _ ↔ _
        rw [store.nextRevision]
      rw [hcount] at hlt ⊢
      refine (h.setLines hlt fun hu' hf => ?_).sameSets store fun hu' _ => hu'
      rw [← store.sets] at hf
      exact hu hu' hf
  | result next executing done event store =>
      have hnext : m.post.manager.store.nextRevision = m.pre.manager.store.nextRevision := by
        rw [store.nextRevision]
        split <;> rfl
      rw [hstill hnext]
      split at store
      · refine (h.clear m.pre.manager.currentKey fun hu' hf => ?_).sameSets store fun hu' _ => hu'
        rw [← store.sets] at hf
        exact hu hu' hf
      · exact h.sameSets store hu

/-- The store of every run is numbered, until the counter comes round. -/
theorem Runs.numbered {b : BootInput} (h : Runs P c (setup P b).1 es w)
    (hlt : revisionsGiven P b es < 2 ^ 32) :
    Numbered (revisionsGiven P b es) w.manager.store := by
  have hboot : (setup P b).1.sets.entries.length < 2 ^ 32 →
      Numbered (setup P b).1.sets.entries.length (setup P b).1.manager.store :=
    setup_numbered P b.nvsSync b.nvsLoad b.persistSwitch b.flash
  have hfresh : revisionsGiven P b es < 2 ^ 32 →
      ∀ key, Fresh key [] 0 (revisionsGiven P b es) False w.manager.store := by
    refine h.guarded.history (H := fun es w => revisionsGiven P b es < 2 ^ 32 →
      ∀ key, Fresh key [] 0 (revisionsGiven P b es) False w.manager.store) (fun hlt key => ?_) ?_
    · have hn := hboot (by rw [revisionsGiven] at hlt; omega)
      refine ⟨hn, Nat.zero_le _, ?_⟩
      cases hr : (setup P b).1.manager.store.revisions.find? key with
      | none => exact .inr (.inl rfl)
      | some r => exact .inr (.inr ⟨r, rfl, (hn.bounds key r hr).1⟩)
    · intro es m _ ih hm hlt key
      rw [revisionsGiven_snoc] at hlt ⊢
      have hf := ih (by omega) key
      exact hf.step (hm.1.store hm.2.1) hlt fun hu _ => hu.elim
  exact (hfresh hlt []).numbered

/-! ## Removal -/

/-- The step takes `key` out of the store. -/
def Removes (key : Bytes) (m : Moment) : Prop :=
  m.pre.sets.find? key ≠ none ∧ m.post.sets.find? key = none

instance (key : Bytes) (m : Moment) : Decidable (Removes key m) :=
  inferInstanceAs (Decidable (_ ∧ _))

/-- All through a stretch the set of `key` was the one with these lines. -/
def Untouched (key : Bytes) (lines : List GbbLine) (es : List Moment) : Prop :=
  ∀ m ∈ es, m.post.sets.find? key = some lines

instance (key : Bytes) (lines : List GbbLine) (es : List Moment) :
    Decidable (Untouched key lines es) :=
  inferInstanceAs (Decidable (∀ m ∈ es, _))

/-- The revision comparison of `handle_result` tells an untouched set from one
that was stored anew. -/
def RevisionTells (key : Bytes) (lines : List GbbLine) (mid : List Moment) (w : World) : Prop :=
  w.manager.store.revision key = w.manager.currentRevision → w.sets.find? key ≠ none →
    Untouched key lines mid

/-- It does so until the counter comes round. -/
theorem Runs.revisionTells {b : BootInput} {before mid : List Moment} {hand : Moment} {first : Bool}
    (h : Runs P c (setup P b).1 (before ++ hand :: mid) w)
    (hev : Event.handed first key lines ∈ hand.evs) (hmid : ∀ m ∈ mid, ¬ HandlesResult m)
    (hlt : revisionsGiven P b (before ++ hand :: mid) < 2 ^ 32) :
    RevisionTells key lines mid w := by
  have hon := Runs.onBus h hev hmid
  have hle : ∀ fs, revisionsGiven P b before ≤
      revisionsGiven P b (before ++ hand :: fs) := fun fs => by
    rw [revisionsGiven, revisionsGiven, List.countP_append]
    omega
  obtain ⟨hbefore, hhand, hrun⟩ := h.guarded.at
  obtain ⟨hpre, hm, -⟩ := h.at
  obtain ⟨hover, -⟩ := handsOver_of_handed hhand.1 hhand.2.1 hev
  have hstored : hand.pre.sets.find? key = some lines := nextEntry_find? hover.next
  -- the revision the set was handed over with
  have hold : (hand.pre.manager.store.revision key).toNat ≤ revisionsGiven P b before := by
    have hn := Runs.numbered hpre (Nat.lt_of_le_of_lt (hle mid) hlt)
    obtain ⟨r, hr⟩ := Option.ne_none_iff_exists'.mp (hn.stored key (by rw [hstored]; nofun))
    rw [EmergencyStore.revision, hr]
    exact (hn.bounds key r hr).2
  have hfresh : revisionsGiven P b (before ++ hand :: mid) < 2 ^ 32 →
      Fresh key lines (revisionsGiven P b before) (revisionsGiven P b (before ++ hand :: mid))
        (Untouched key lines mid) w.manager.store := by
    refine hrun.history (H := fun es w => revisionsGiven P b (before ++ hand :: es) < 2 ^ 32 →
      Fresh key lines (revisionsGiven P b before) (revisionsGiven P b (before ++ hand :: es))
        (Untouched key lines es) w.manager.store) (fun hlt => ?_) ?_
    · have hn := Runs.numbered (Run.snoc hpre hm) hlt
      refine ⟨hn, hle [], .inl ⟨by simp [Untouched], ?_⟩⟩
      rw [hover.store]
      exact hstored
    · intro es m _ ih hm hlt
      rw [show before ++ hand :: (es ++ [m]) = (before ++ hand :: es) ++ [m] by simp,
        revisionsGiven_snoc] at hlt ⊢
      refine (ih (by omega)).step (hm.1.store hm.2.1) hlt fun hu hf x hx => ?_
      rcases List.mem_append.mp hx with hx | hx
      · exact hu x hx
      · exact List.mem_singleton.mp hx ▸ hf
  intro hrev hne
  have hf := hfresh hlt
  rcases hf.key with ⟨hu, -⟩ | hnone | ⟨r, hr, hnew⟩
  · exact hu
  · exact absurd hnone (hf.numbered.stored key hne)
  · rw [hon.currentRevision, EmergencyStore.revision, hr] at hrev
    rw [← hrev] at hold
    exact absurd hold (Nat.not_le.mpr hnew)

/-- `handle_result`, for the key that ran. -/
theorem removes_iff {mid : List Moment} {revision : UInt32}
    (h : OnBus key lines revision mid m.pre) (hm : StepCase P c m) (hw : Sound m.pre)
    (hres : HandlesResult m) :
    Removes key m ↔ AnsweredClean mid ∧
      m.pre.manager.store.revision key = m.pre.manager.currentRevision ∧
      m.pre.sets.find? key ≠ none := by
  cases hm.store hw with
  | same _ hno => exact absurd hres hno
  | message _ _ _ hno => exact absurd hres hno
  | result next executing done event store =>
      rw [h.currentKey] at store
      have hclean : m.pre.executor.header.lines.any answeredLine = true ↔ AnsweredClean mid := by
        rw [delivered_iff h.batch done]
        constructor
        · rintro ⟨l, hl, hnil⟩
          obtain ⟨t, frame, hev⟩ := mem_answeredLines.mp hl
          exact ⟨t, l, frame, hev, hnil⟩
        · rintro ⟨t, l, frame, hev, hnil⟩
          exact ⟨l, mem_answeredLines.mpr ⟨t, frame, hev⟩, hnil⟩
      by_cases hd : m.pre.executor.header.lines.any answeredLine = true ∧
          m.pre.manager.store.revision key = m.pre.manager.currentRevision
      · rw [if_pos hd] at store
        have hpost : m.post.sets.find? key = none := by
          show m.post.manager.store.sets.find? key = none
          rw [store.sets]
          exact OrdMap.find?_erase_self
        exact ⟨fun hr => ⟨hclean.mp hd.1, hd.2, hr.1⟩, fun hr => ⟨hr.2.2, hpost⟩⟩
      · rw [if_neg hd] at store
        have hpost : m.post.sets.find? key = m.pre.sets.find? key :=
          congrArg (OrdMap.find? · key) store.sets
        exact ⟨fun hr => absurd (hpost.symm.trans hr.2) hr.1,
          fun hr => absurd ⟨hclean.mpr hr.1, hr.2.1⟩ hd⟩

/-- When a set changes, when it is removed, and when that is what delivery
asks for: the run that was answered removes its set, if an answered line came
without an `Error` of its own. -/
theorem set_removed_iff {b : BootInput} (h : Runs P c (setup P b).1 es w) :
    (∀ before m after, es = before ++ m :: after → ∀ key,
      (m.post.sets.find? key ≠ m.pre.sets.find? key →
        Addresses P key m ∨ ∃ next, Event.resultHandled key next ∈ m.evs) ∧
      ((∃ ran next, Event.resultHandled ran next ∈ m.evs ∧ ran ≠ key) →
        m.post.sets.find? key = m.pre.sets.find? key)) ∧
    ∀ before hand mid stop after first key lines,
      es = before ++ hand :: mid ++ stop :: after → Event.handed first key lines ∈ hand.evs →
      (∀ m ∈ mid, ¬ HandlesResult m) → HandlesResult stop →
      ((Removes key stop ↔ Answered mid ∧ Untouched key lines mid) ↔
        (Answered mid → Untouched key lines mid → AnsweredClean mid) ∧
          (AnsweredClean mid → RevisionTells key lines mid stop.pre)) ∧
      (revisionsGiven P b (before ++ hand :: mid) < 2 ^ 32 →
        RevisionTells key lines mid stop.pre) := by
  refine ⟨?_, ?_⟩
  · rintro before m after rfl key
    obtain ⟨-, hm, -⟩ := h.guarded.at
    have hs := hm.1.store hm.2.1
    refine ⟨hs.change, fun ⟨ran, next, hev, hne⟩ => ?_⟩
    cases hs with
    | same _ hno => exact absurd ⟨ran, next, hev⟩ hno
    | message _ _ _ hno => exact absurd ⟨ran, next, hev⟩ hno
    | result next' executing done event store =>
        obtain ⟨-, -, hran, -⟩ := hm.1.of_resultHandled hm.2.1 hev
        show m.post.manager.store.sets.find? key = _
        rw [store.sets]
        split
        · exact clear_sets_ne (fun h => hne (hran.trans h.symm))
        · rfl
  · rintro before hand mid stop after first key lines rfl hev hmid hres
    have hg := h.guarded
    rw [List.append_assoc, List.cons_append] at hg
    obtain ⟨-, -, hrest⟩ := hg.at
    obtain ⟨-, hstop, -⟩ := hrest.at
    have hrun : Runs P c (setup P b).1 (before ++ hand :: mid) stop.pre := h.at.1
    have hon := Runs.onBus hrun hev hmid
    have hremoves := removes_iff hon hstop.1 hstop.2.1 hres
    have hanswered : AnsweredClean mid → Answered mid := fun ⟨t, l, frame, hmem, _⟩ =>
      ⟨t, l, frame, hmem, hon.valid t l frame hmem⟩
    refine ⟨⟨fun hiff => ⟨fun ha hu => ?_, fun hc hrev hne => ?_⟩, fun ⟨hclean, htells⟩ => ?_⟩,
      Runs.revisionTells hrun hev hmid⟩
    · exact (hremoves.mp (hiff.mpr ⟨ha, hu⟩)).1
    · exact (hiff.mp (hremoves.mpr ⟨hc, hrev, hne⟩)).2
    · rw [hremoves]
      constructor
      · rintro ⟨hc, hrev, hne⟩
        exact ⟨hanswered hc, htells hc hrev hne⟩
      · rintro ⟨ha, hu⟩
        obtain ⟨hfind, hrev⟩ := hon.kept hu
        exact ⟨hclean ha hu, hrev.trans hon.currentRevision.symm, by rw [hfind]; nofun⟩

/-- The first set of the night, and the reply to it. -/
def nightLine : GbbLine := parseLine (lineDoc 1 "01060001000259CB")

def nightReply : Bytes := [0x01, 0x06, 0x00, 0x01, 0x00, 0x02, 0x59, 0xCB]

/-- It was answered, nobody touched it, and it is gone. -/
theorem set_removed_iff_night :
    ∃ h : 10 + 1 + 11 < nightRun.length, Removes (text "A") nightRun[10 + 1 + 11] := by
  have hlen : 10 + 1 + 11 < nightRun.length := by decide +kernel
  have hev : Event.handed true (text "A") [nightLine] ∈ nightRun[10].evs := by
    decide +kernel +revert
  have hres : HandlesResult nightRun[10 + 1 + 11] := by
    clear hev
    decide +kernel +revert
  have hmid : ∀ m ∈ (nightRun.drop (10 + 1)).take 11, ¬ HandlesResult m := by decide +kernel
  have hreply : Event.answered 5101 nightLine nightReply ∈
      ((nightRun.drop (10 + 1)).take 11).flatMap Move.evs := by decide +kernel
  have hrun : Runs nightDevice {} (setup nightDevice unplugged).1 nightRun _ := performAll_runs rfl
  obtain ⟨hiff, htells⟩ := (set_removed_iff hrun).2 _ _ _ _ _ _ _ _ (pick_two nightRun 10 11 hlen)
    hev hmid hres
  have hfresh := htells <| by
    clear * - hlen
    decide +kernel +revert
  have hexact := hiff.mpr ⟨fun _ _ => ⟨5101, nightLine, nightReply, hreply, by decide +kernel⟩,
    fun _ => hfresh⟩
  exact ⟨hlen, hexact.mpr ⟨⟨5101, nightLine, nightReply, hreply, by decide +kernel⟩,
    by decide +kernel⟩⟩

/-- The set of the night again, on a line that came with an `Error`. -/
def erredDoc : Json :=
  .obj [("SubInverterSN", .str (text "A")), ("IsInvSetup", .int 1),
    ("LinesOnNoInvSetup", .arr [.obj [("LineNo", .int 1),
      ("Modbus", .str (text "01060001000259CB")), ("Error", .str (text "Response timeout"))]])]

def erredLine : GbbLine := { nightLine with error := text "Response timeout" }

def erredRun : List Moment × World :=
  performAll (bench [erredDoc]) {}
    ([arrives erredDoc (clockAt 0 0)] ++ callAfter 5000 [] (clockAt 2 20) ++
      callAfter 1 [] (clockAt 2 20) ++ callAfter 100 nightReply (clockAt 2 20) ++
      callAfter 1 [] (clockAt 2 20))
    (setup (bench [erredDoc]) unplugged).1

/-- It was answered, nobody touched it, and it stays, to be sent again. -/
theorem answered_set_stays :
    Runs (bench [erredDoc]) {} (setup (bench [erredDoc]) unplugged).1 erredRun.1 erredRun.2 ∧
      ∃ h : 9 + 1 + 10 < erredRun.1.length,
        Event.handed true (text "A") [erredLine] ∈ erredRun.1[9].evs ∧
        (∀ m ∈ (erredRun.1.drop 10).take 10, ¬ HandlesResult m) ∧
        HandlesResult erredRun.1[9 + 1 + 10] ∧
        Answered ((erredRun.1.drop 10).take 10) ∧
        Untouched (text "A") [erredLine] ((erredRun.1.drop 10).take 10) ∧
        ¬ Removes (text "A") erredRun.1[9 + 1 + 10] := by
  have hlen : 9 + 1 + 10 < erredRun.1.length := by decide +kernel
  refine ⟨performAll_runs rfl, hlen, ?_, by decide +kernel, ?_,
    ⟨5101, erredLine, nightReply, by decide +kernel, by decide +kernel⟩, by decide +kernel, ?_⟩
  all_goals decide +kernel +revert

end Gbb
