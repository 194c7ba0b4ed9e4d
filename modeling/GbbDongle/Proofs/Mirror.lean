import GbbDongle.Proofs.Bench
import GbbDongle.Proofs.Events
import GbbDongle.Proofs.Protocol

/-!
# The copy in flash

`sync_nvs` decides by a hash whether flash is up to date. The hash is zero when
the key is absent and the hash of the blob when it is there, whatever phase the
store goes through: that is `HasCopy`, and with it a sync always leaves the key
in step with the sets, and does nothing when it is. Sets whose text is too long
leave the last copy in place; a reboot then finds that copy, reads it back as
the sets it was made of, and is in step again.
-/

namespace Gbb

open History EmergencyManager EmergencyStore

variable {P : Platform} {c : Config} {m : Moment} {es : List Moment} {w : World}
  {S : Set Sets} {s : EmergencyStore} {flash : Flash} {sets : Sets}

/-! ## What is written -/

/-- Sets that `sync_nvs` writes: there are some, and their text fits. -/
def Written (P : Platform) (sets : Sets) : Prop :=
  sets.isEmpty = false ∧ (P.serialize (setsDoc sets)).length < jsonBuildTruncatedSize

theorem Written.blob (h : Written P sets) :
    buildEmergencySets P sets = P.serialize (setsDoc sets) := P.buildJson_complete h.2

theorem written_iff :
    Written P sets ↔ sets.isEmpty = false ∧
      ¬ jsonBuildTruncatedSize ≤ (buildEmergencySets P sets).length := by
  rw [Written, Nat.not_le, buildEmergencySets, P.buildJson_short]

/-- What is assumed of hash and library on the sets of a run: no collision, no
zero, and text that is read back. -/
structure Trusted (P : Platform) (S : Set Sets) : Prop where
  injective : ∀ sets ∈ S, ∀ sets' ∈ S, Written P sets → Written P sets' →
    P.fnv1Hash (buildEmergencySets P sets) = P.fnv1Hash (buildEmergencySets P sets') →
    buildEmergencySets P sets = buildEmergencySets P sets'
  nonzero : ∀ sets ∈ S, Written P sets → P.fnv1Hash (buildEmergencySets P sets) ≠ 0
  text : ∀ sets ∈ S, Written P sets → P.serialize (setsDoc sets) ≠ []
  readBack : ∀ sets ∈ S, Written P sets →
    P.deserialize (P.serialize (setsDoc sets)) = some (setsDoc sets)

/-! ## The hash -/

/-- The remembered hash tells what the key holds. -/
def HasCopy (P : Platform) (S : Set Sets) (hash : UInt32) (flash : Flash) : Prop :=
  (flash = none ∧ hash = 0) ∨
    ∃ sets ∈ S, Written P sets ∧ Storable sets ∧
      flash = some (buildEmergencySets P sets) ∧ hash = P.fnv1Hash (buildEmergencySets P sets)

/-- The key is in step with the sets. -/
structure InStep (P : Platform) (sets : Sets) (flash : Flash) : Prop where
  empty : sets.isEmpty = true → flash = none
  written : Written P sets → flash = some (buildEmergencySets P sets)

theorem HasCopy.of_zero (h : HasCopy P S 0 flash) (ht : Trusted P S) : flash = none := by
  rcases h with h | ⟨sets, hmem, hw, -, -, hz⟩
  · exact h.1
  · exact absurd hz.symm (ht.nonzero sets hmem hw)

theorem HasCopy.of_none {hash : UInt32} (h : HasCopy P S hash none) : hash = 0 := by
  rcases h with h | ⟨_, _, _, _, hf, _⟩
  · exact h.2
  · cases hf

theorem HasCopy.of_hash (h : HasCopy P S (P.fnv1Hash (buildEmergencySets P sets)) flash)
    (ht : Trusted P S) (hmem : sets ∈ S) (hw : Written P sets) :
    flash = some (buildEmergencySets P sets) := by
  rcases h with h | ⟨sets', hmem', hw', -, hf, hz⟩
  · exact absurd h.2 (ht.nonzero sets hmem hw)
  · rw [hf, ht.injective sets hmem sets' hmem' hw hw' hz]

theorem HasCopy.of_blob {hash : UInt32}
    (h : HasCopy P S hash (some (buildEmergencySets P sets))) :
    hash = P.fnv1Hash (buildEmergencySets P sets) := by
  rcases h with h | ⟨sets', _, _, _, hf, hz⟩
  · cases h.1
  · rw [hz, Option.some.inj hf]

/-- A sync leaves the key in step, and is silent where it already was. -/
theorem syncNvs_inStep (ht : Trusted P S) (hon : s.persistEnabled = true)
    (hcopy : HasCopy P S s.persistedHash flash) (hmem : s.sets ∈ S) (hst : Storable s.sets) :
    HasCopy P S (syncNvs P .ok s flash).1.persistedHash (syncNvs P .ok s flash).2.1 ∧
      InStep P s.sets (syncNvs P .ok s flash).2.1 ∧
      (InStep P s.sets flash → (syncNvs P .ok s flash).2.2 = []) := by
  have hopen : ¬ (s.persistEnabled = false ∨ NvsOutcome.ok.opens = false) := by
    rw [hon]
    simp [NvsOutcome.ok]
  rw [syncNvs, if_neg hopen]
  by_cases he : s.sets.isEmpty = true
  · rw [if_pos he]
    have hnot : ¬ Written P s.sets := fun hw => by
      rw [hw.1] at he
      cases he
    by_cases hz : s.persistedHash = 0
    · rw [if_pos hz]
      rw [hz] at hcopy
      exact ⟨hz ▸ hcopy, ⟨fun _ => hcopy.of_zero ht, fun hw => absurd hw hnot⟩, fun _ => rfl⟩
    · rw [if_neg hz]
      refine ⟨.inl ⟨rfl, rfl⟩, ⟨fun _ => rfl, fun hw => absurd hw hnot⟩, fun hstep => ?_⟩
      rw [hstep.empty he] at hcopy
      exact absurd hcopy.of_none hz
  · rw [if_neg he]
    rw [Bool.not_eq_true] at he
    by_cases hlong : jsonBuildTruncatedSize ≤ (buildEmergencySets P s.sets).length
    · simp only [if_pos hlong]
      refine ⟨hcopy, ⟨fun h => ?_, fun hw => absurd hlong (written_iff.mp hw).2⟩, fun _ => trivial⟩
      rw [he] at h
      cases h
    · simp only [if_neg hlong]
      have hw : Written P s.sets := written_iff.mpr ⟨he, hlong⟩
      have hempty : s.sets.isEmpty = true → ∀ f : Flash, f = none := fun h => by
        rw [he] at h
        cases h
      by_cases hhash : P.fnv1Hash (buildEmergencySets P s.sets) = s.persistedHash
      · rw [if_pos hhash]
        have hsame := hcopy
        rw [← hhash] at hsame
        exact ⟨hcopy, ⟨fun h => hempty h _, fun _ => hsame.of_hash ht hmem hw⟩, fun _ => rfl⟩
      · rw [if_neg hhash]
        refine ⟨.inr ⟨s.sets, hmem, hw, hst, rfl, rfl⟩, ⟨fun h => hempty h _, fun _ => rfl⟩,
          fun hstep => ?_⟩
        rw [hstep.written hw] at hcopy
        exact absurd hcopy.of_blob.symm hhash

/-! ## The operations -/

/-- The set a message brings, where it brings one, can be stored. -/
theorem acceptedHeader_storable {payload : Bytes} {header : GbbHeader}
    (h : acceptedHeader P payload = some header) (hne : header.linesOnNoInvSetup ≠ []) :
    StorableSet (header.setKey, header.linesOnNoInvSetup) := by
  rw [acceptedHeader] at h
  split at h
  · cases h
  · simp only [parseHeader, Option.bind_eq_bind, Option.bind_eq_some_iff] at h
    obtain ⟨root, -, lines, -, noInv, hlines, h⟩ := h
    obtain rfl := Option.some.inj h
    obtain ⟨hlen, hreadable⟩ := parseLinesMember_spec hlines
    refine ⟨?_, hne, hlen, hreadable⟩
    simp only [GbbHeader.setKey]
    split
    · exact nulFree_strTrimCopy (nulFree_asStr? _).1
    · exact List.not_mem_nil

theorem Storable.clear (h : Storable s.sets) (key : Bytes) : Storable (s.clear key).sets :=
  fun e he => h e (List.mem_filter.mp he).1

theorem Storable.setLines {key : Bytes} {lines : List GbbLine} (h : Storable s.sets)
    (hnew : lines ≠ [] → StorableSet (key, lines)) : Storable (s.setLines key lines).2.sets := by
  have hc := setLines_case key lines s
  generalize s.setLines key lines = r at hc ⊢
  cases hc with
  | absent => exact h
  | cleared => exact h.clear key
  | same => exact h
  | stored hne =>
      intro e he
      rcases List.mem_append.mp he with he | he
      · exact h e (List.mem_filter.mp he).1
      · rcases List.mem_cons.mp he with rfl | he
        · exact hnew hne
        · exact h e (List.mem_filter.mp he).1

/-- What an operation does to store and flash: nothing, or a sync of a store
whose sets it has changed. -/
inductive StoreOp (P : Platform) (o : NvsOutcome) (s : EmergencyStore) (flash : Flash) :
    EmergencyStore → Flash → List Event → Prop
  | still {evs : List Event} : (∀ ev ∈ evs, isNvs ev = false) → StoreOp P o s flash s flash evs
  | synced {evs : List Event} (s' : EmergencyStore) : s'.persistEnabled = s.persistEnabled →
      s'.persistedHash = s.persistedHash → (Storable s.sets → Storable s'.sets) →
      (∀ ev ∈ evs, isNvs ev = true → ev ∈ (syncNvs P o s' flash).2.2) →
      StoreOp P o s flash (syncNvs P o s' flash).1 (syncNvs P o s' flash).2.1 evs

theorem StoreOp.append {o : NvsOutcome} {s' : EmergencyStore} {flash' : Flash}
    {evs more : List Event} (h : StoreOp P o s flash s' flash' evs)
    (hmore : ∀ ev ∈ more, isNvs ev = false) : StoreOp P o s flash s' flash' (evs ++ more) := by
  cases h with
  | still hsilent =>
      exact .still fun ev hev => (List.mem_append.mp hev).elim (hsilent ev) (hmore ev)
  | synced s' hen hhash hst hevs =>
      refine .synced s' hen hhash hst fun ev hev hnvs => ?_
      rcases List.mem_append.mp hev with hev | hev
      · exact hevs ev hev hnvs
      · rw [hmore ev hev] at hnvs
        cases hnvs

theorem setLines_bookkeeping (key : Bytes) (lines : List GbbLine) (s : EmergencyStore) :
    (s.setLines key lines).2.persistEnabled = s.persistEnabled ∧
      (s.setLines key lines).2.persistedHash = s.persistedHash := by
  have hc := setLines_case key lines s
  generalize s.setLines key lines = r at hc ⊢
  cases hc <;> exact ⟨rfl, rfl⟩

theorem isNvs_of_kind {ev : Event} (h : ev.kind ≠ .flash) : isNvs ev = false := by
  cases ev <;> first | rfl | exact absurd rfl h

theorem handleFields_storeOp {e : EmergencyConfig} {wall : ESPTime} {o : NvsOutcome}
    {header : GbbHeader} {g : EmergencyManager}
    (hnew : header.linesOnNoInvSetup ≠ [] → StorableSet (header.setKey, header.linesOnNoInvSetup)) :
    StoreOp P o g.store flash (g.handleFields P e wall o header flash).1.store
      (g.handleFields P e wall o header flash).2.1
      (g.handleFields P e wall o header flash).2.2 := by
  have hnotes : ∀ ev ∈ (if header.invSetup then [Event.invSetup (e.read wall)] else []),
      isNvs ev = false := fun ev hev => by
    split at hev
    · rw [List.mem_singleton.mp hev]
      rfl
    · cases hev
  have hnoted : (if header.invSetup then g.noteInvSetup (e.read wall) else g).store = g.store :=
    noted_store (c := e)
  simp only [EmergencyManager.handleFields]
  generalize (if header.invSetup then g.noteInvSetup (e.read wall) else g) = g' at hnoted
  split
  · simp only [storeLines, hnoted]
    split
    · obtain ⟨hen, hhash⟩ := setLines_bookkeeping header.setKey header.linesOnNoInvSetup g.store
      rw [afterStore_eq]
      refine .synced _ hen hhash (fun hst => hst.setLines hnew) fun ev hev hnvs => ?_
      rcases List.mem_append.mp hev with hev | hev
      · rw [hnotes ev hev] at hnvs
        cases hnvs
      · exact hev
    · rw [afterStore_eq, List.append_nil]
      simp only [hnoted]
      exact .still hnotes
  · simp only [hnoted]
    exact .still hnotes

theorem handleResult_storeOp {e : EmergencyConfig} {t : Nat} {o : NvsOutcome} {header : GbbHeader}
    {g : EmergencyManager} :
    StoreOp P o g.store flash (g.handleResult P e t o header flash).1.store
      (g.handleResult P e t o header flash).2.1 (g.handleResult P e t o header flash).2.2 := by
  simp only [EmergencyManager.handleResult, leaveRun_store, confirm]
  split
  · split
    · refine .synced _ rfl rfl (fun hst => hst.clear g.currentKey) fun ev hev hnvs => ?_
      rcases List.mem_append.mp hev with hev | hev
      · exact hev
      · rw [List.mem_singleton.mp hev] at hnvs
        cases hnvs
    · exact .still fun ev hev => by rw [List.mem_singleton.mp hev]; rfl
  · exact .still fun ev hev => by rw [List.mem_singleton.mp hev]; rfl

/-- All NVS calls of an act succeed. -/
def Act.nvsOk : Act → Prop
  | .message _ _ o | .persistSwitch _ o | .poll _ _ o => o = .ok
  | .boot b => b.nvsSync = .ok ∧ b.nvsLoad = .ok
  | _ => True

/-- What a step is to the copy in flash. -/
inductive NvsCase (P : Platform) (m : Moment) : Prop
  | op (o : NvsOutcome) (ok : m.act.nvsOk → o = .ok)
      (op : StoreOp P o m.pre.manager.store m.pre.flash m.post.manager.store m.post.flash m.evs)
      (persistSwitch : m.post.persistSwitch = m.pre.persistSwitch)
  | toggled (on : Bool) (o : NvsOutcome) (act : m.act = .persistSwitch on o)
      (store : m.post.manager.store =
        (m.pre.manager.store.setPersistEnabled P o on m.pre.flash).1)
      (flash : m.post.flash = (m.pre.manager.store.setPersistEnabled P o on m.pre.flash).2.1)
      (persistSwitch : m.post.persistSwitch = some on)

/-- A step that is nothing to it. -/
theorem NvsCase.still (store : m.post.manager.store = m.pre.manager.store)
    (flash : SameFlash m.pre m.post) (silent : ∀ ev ∈ m.evs, isNvs ev = false) : NvsCase P m := by
  refine .op .ok (fun _ => rfl) ?_ flash.persistSwitch
  rw [store, flash.flash]
  exact .still silent

theorem StepCase.nvs (hm : StepCase P c m) : NvsCase P m := by
  cases hm with
  | quiet b executor manager pending flash evs =>
      refine .still (by rw [manager]) flash fun ev hev => ?_
      rcases evs ev hev with rfl | rfl <;> rfl
  | message payload wall o header act parsed executor manager pending flash persist evs =>
      refine .op o (fun hok => by rw [act] at hok; exact hok) ?_ persist
      rw [manager, flash, evs]
      exact (handleFields_storeOp (acceptedHeader_storable parsed)).append
        fun ev hev => by rw [List.mem_singleton.mp hev]; rfl
  | toggled on o act executor manager pending flash persist =>
      exact .toggled on o act (by rw [manager]) flash persist.2
  | handled t info wait o act result emergency executor manager pending flash persist evs =>
      refine .op o (fun hok => by rw [act] at hok; exact hok) ?_ persist
      rw [manager, flash, evs]
      exact handleResult_storeOp
  | finished info wait o act result emergency executor manager pending flash evs =>
      refine .still (by rw [manager]) flash fun ev hev => ?_
      exact isNvs_of_kind (by rw [finished_kind (evs ▸ hev)]; nofun)
  | handed t key lines free queued next executor manager pending flash evs =>
      refine .still (by rw [manager]) flash fun ev hev => ?_
      rw [evs] at hev
      rcases List.mem_cons.mp hev with rfl | hev
      · rfl
      · exact isNvs_of_kind (by rw [(start_kind hev).1]; nofun)
  | strayed free queued next executor manager pending flash evs =>
      refine .still (by rw [manager]) flash fun ev hev => ?_
      rw [evs] at hev
      cases hev
  | started t header free queued waiting executor manager pending flash evs =>
      refine .still (by rw [manager]) flash fun ev hev => ?_
      rw [evs] at hev
      rcases List.mem_cons.mp hev with rfl | hev
      · rfl
      · exact isNvs_of_kind (by rw [(start_kind hev).1]; nofun)
  | executed rx wait₁ wait₂ wait₃ t₁ t₂ t₃ act executor manager pending flash evs =>
      refine .still (by rw [manager]) flash fun ev hev => ?_
      exact isNvs_of_kind (by rw [loop_kind (evs ▸ hev)]; nofun)
  | checked wait₁ wait₂ t wall lastCheck act due executor check pending flash =>
      refine .still (by exact check.kept.store) flash fun ev hev => ?_
      exact isNvs_of_kind (by rw [check_kind check hev]; nofun)

/-! ## The mirror -/

/-- What every operation keeps of store, switch and flash. -/
structure InFlash (P : Platform) (S : Set Sets) (s : EmergencyStore) (persist : Option Bool)
    (flash : Flash) : Prop where
  switch : s.persistEnabled = true ↔ persist = some true
  off : s.persistEnabled = false → flash = none
  copy : HasCopy P S s.persistedHash flash
  inStep : s.persistEnabled = true → InStep P s.sets flash
  storable : Storable s.sets

theorem syncNvs_persistEnabled {o : NvsOutcome} :
    (syncNvs P o s flash).1.persistEnabled = s.persistEnabled := by
  simp only [syncNvs]
  repeat' split
  all_goals rfl

/-- A sync of a store that is fit for it. -/
theorem InFlash.sync {persist : Option Bool} (ht : Trusted P S)
    (hswitch : s.persistEnabled = true ↔ persist = some true)
    (hoff : s.persistEnabled = false → flash = none) (hcopy : HasCopy P S s.persistedHash flash)
    (hst : Storable s.sets) (hmem : s.sets ∈ S) :
    InFlash P S (syncNvs P .ok s flash).1 persist (syncNvs P .ok s flash).2.1 ∧
      (InStep P s.sets flash → (syncNvs P .ok s flash).2.2 = []) := by
  cases hon : s.persistEnabled with
  | false =>
      have hnone : syncNvs P .ok s flash = (s, flash, []) := by rw [syncNvs, if_pos (.inl hon)]
      rw [hnone]
      refine ⟨⟨hswitch, hoff, hcopy, fun h => ?_, hst⟩, fun _ => rfl⟩
      rw [hon] at h
      cases h
  | true =>
      obtain ⟨hcopy', hstep, hsilent⟩ := syncNvs_inStep ht hon hcopy hmem hst
      refine ⟨⟨?_, fun h => ?_, hcopy', fun _ => ?_, ?_⟩, hsilent⟩
      · rw [syncNvs_persistEnabled]
        exact hswitch
      · rw [syncNvs_persistEnabled, hon] at h
        cases h
      · rw [syncNvs_sets]
        exact hstep
      · rw [syncNvs_sets]
        exact hst

/-- An operation keeps the mirror, and writes nothing that is there already. -/
theorem InFlash.op {persist : Option Bool} {s' : EmergencyStore} {flash' : Flash} {evs : List Event}
    (h : InFlash P S s persist flash) (ht : Trusted P S) (hmem : s'.sets ∈ S)
    (hop : StoreOp P .ok s flash s' flash' evs) :
    InFlash P S s' persist flash' ∧ (s.persistEnabled = true → s'.sets = s.sets →
      ∀ ev ∈ evs, isNvs ev = false) := by
  cases hop with
  | still hsilent => exact ⟨h, fun _ _ => hsilent⟩
  | synced s'' hen hhash hstorable hevs =>
      rw [syncNvs_sets] at hmem
      obtain ⟨hin, hsilent⟩ := InFlash.sync ht (by rw [hen]; exact h.switch)
        (by rw [hen]; exact h.off) (by rw [hhash]; exact h.copy) (hstorable h.storable) hmem
      refine ⟨hin, fun hon hsame ev hev => ?_⟩
      rw [syncNvs_sets] at hsame
      have hnil := hsilent (hsame ▸ h.inStep hon)
      by_contra hnvs
      rw [Bool.not_eq_false] at hnvs
      have hmem := hevs ev hev hnvs
      rw [hnil] at hmem
      cases hmem

/-- Turning persistence on or off keeps the mirror. -/
theorem InFlash.toggle {persist : Option Bool} (h : InFlash P S s persist flash) (ht : Trusted P S)
    (on : Bool) (hmem : s.sets ∈ S) :
    InFlash P S (s.setPersistEnabled P .ok on flash).1 (some on)
      (s.setPersistEnabled P .ok on flash).2.1 := by
  rw [setPersistEnabled]
  split
  · next heq => exact ⟨by rw [heq, Option.some.injEq], h.off, h.copy, h.inStep, h.storable⟩
  · next hne =>
      split
      · next hon =>
          have hoff : s.persistEnabled = false := by
            rw [hon] at hne
            exact Bool.eq_false_iff.mpr fun h => hne h.symm
          -- the key is absent, and the remembered hash says so
          let s₁ : EmergencyStore := { s with persistEnabled := true, persistedHash := 0 }
          have hcopy : HasCopy P S s₁.persistedHash flash := .inl ⟨h.off hoff, rfl⟩
          refine (InFlash.sync (s := s₁) ht ?_ ?_ hcopy h.storable hmem).1
          · exact ⟨fun _ => by rw [hon], fun _ => rfl⟩
          · exact fun h => absurd h.symm Bool.false_ne_true
      · next hon =>
          refine ⟨⟨fun h => ?_, fun h => absurd (Option.some.inj h) hon⟩, fun _ => rfl,
            .inl ⟨rfl, rfl⟩, fun h => ?_, h.storable⟩
          · exact absurd h Bool.false_ne_true
          · exact absurd h Bool.false_ne_true

/-! ## Boot -/

/-- The copy is read back as the sets it was made of. -/
theorem load_copy (ht : Trusted P S) (hmem : sets ∈ S) (hw : Written P sets) (hst : Storable sets)
    (hs : s.sets = .empty) :
    ∃ s', loadFromNvs P .ok s (some (buildEmergencySets P sets)) =
        (true, s', some (buildEmergencySets P sets), []) ∧
      s'.sets = sets ∧ s'.persistEnabled = s.persistEnabled ∧
      s'.persistedHash = P.fnv1Hash (buildEmergencySets P sets) := by
  have hparse : parseEmergencySets P (buildEmergencySets P sets) s.sets = some sets := by
    rw [hw.blob, hs]
    exact parseEmergencySets_serialize hst (ht.readBack sets hmem hw)
  have hc := loadFromNvs_case P .ok s (some (buildEmergencySets P sets))
  generalize loadFromNvs P .ok s (some (buildEmergencySets P sets)) = r at hc ⊢
  cases hc with
  | nothing h =>
      have hnil : some (buildEmergencySets P sets) = some [] := by simpa [NvsOutcome.ok] using h
      rw [hw.blob] at hnil
      exact absurd (Option.some.inj hnil) (ht.text sets hmem hw)
  | dropped blob hf hno =>
      obtain rfl := Option.some.inj hf
      rw [if_pos (show NvsOutcome.ok.reads = true from rfl), hparse] at hno
      cases hno
  | restored blob sets' hf _ hp =>
      obtain rfl := Option.some.inj hf
      obtain rfl := Option.some.inj (hparse.symm.trans hp)
      rw [hw.1]
      exact ⟨_, rfl, rfl, rfl, rfl⟩

/-- Boot finds the sets the copy was made of, or nothing. -/
theorem setup_inFlash {persist : Option Bool} {hash : UInt32} (ht : Trusted P S)
    (hcopy : HasCopy P S hash flash) (hoff : persist ≠ some true → flash = none) :
    InFlash P S (({} : EmergencyManager).setup P .ok .ok persist flash).1.store persist
        (({} : EmergencyManager).setup P .ok .ok persist flash).2.1 ∧
      ∀ ev ∈ (({} : EmergencyManager).setup P .ok .ok persist flash).2.2, isNvs ev = false := by
  have hempty : Storable ({} : EmergencyStore).sets := nofun
  have hrest : persist ≠ some true → InFlash P S {} persist flash := fun hne =>
    ⟨⟨nofun, fun h => absurd h hne⟩, fun _ => hoff hne, .inl ⟨hoff hne, rfl⟩, nofun, hempty⟩
  have hsilent : ∀ ev ∈ ([] : List Event), isNvs ev = false := fun ev hev => nomatch hev
  match persist with
  | none =>
      rw [EmergencyManager.setup]
      exact ⟨hrest (fun h => nomatch h), hsilent⟩
  | some false =>
      rw [EmergencyManager.setup]
      exact ⟨hrest (fun h => nomatch h), hsilent⟩
  | some true =>
      have hon : setPersistEnabled P .ok true {} flash =
          ({ persistEnabled := true }, flash, []) := rfl
      rw [EmergencyManager.setup, hon]
      rcases hcopy with ⟨rfl, -⟩ | ⟨sets, hmem, hw, hst, rfl, -⟩
      · have hload : loadFromNvs P .ok { persistEnabled := true } none =
            (false, { persistEnabled := true }, none, []) := rfl
        rw [hload]
        refine ⟨?_, hsilent⟩
        exact ⟨⟨fun _ => rfl, fun _ => rfl⟩, fun _ => rfl, .inl ⟨rfl, rfl⟩,
          fun _ => ⟨fun _ => rfl, fun hw => absurd hw.1 (fun h => nomatch h)⟩, hempty⟩
      · obtain ⟨s', hload, hsets, hen, hhash⟩ :=
          load_copy (s := { persistEnabled := true }) ht hmem hw hst rfl
        rw [hload]
        refine ⟨?_, hsilent⟩
        refine ⟨⟨fun _ => rfl, fun _ => hen⟩, fun h => ?_, .inr ⟨sets, hmem, hw, hst, rfl, hhash⟩,
          fun _ => ?_, ?_⟩
        · have h' : s'.persistEnabled = false := h
          rw [hen] at h'
          cases h'
        · show InStep P s'.sets _
          rw [hsets]
          refine ⟨fun he => ?_, fun _ => rfl⟩
          rw [hw.1] at he
          cases he
        · show Storable s'.sets
          rw [hsets]
          exact hst

/-! ## Runs with reboots -/

/-- The requirement: off, there is no copy; on, the key is absent exactly when
the store is empty and else holds the sets, as long as their text fits. -/
structure Mirrors (P : Platform) (w : World) : Prop where
  switch : w.manager.store.persistEnabled = true ↔ w.persistSwitch = some true
  off : w.manager.store.persistEnabled = false → w.flash = none
  on : w.manager.store.persistEnabled = true →
    (P.serialize (setsDoc w.sets)).length < jsonBuildTruncatedSize →
    (w.flash = none ↔ w.sets.isEmpty = true) ∧
      (w.sets.isEmpty = false → w.flash = some (buildEmergencySets P w.sets))

theorem InFlash.mirrors (h : InFlash P S w.manager.store w.persistSwitch w.flash) :
    Mirrors P w := by
  refine ⟨h.switch, h.off, fun hon hfits => ?_⟩
  have hfull : w.sets.isEmpty = false → w.flash = some (buildEmergencySets P w.sets) := fun he =>
    (h.inStep hon).written ⟨he, hfits⟩
  refine ⟨⟨fun hf => ?_, (h.inStep hon).empty⟩, hfull⟩
  by_contra he
  rw [Bool.not_eq_true] at he
  rw [hfull he] at hf
  cases hf

/-- The sets a run comes by. -/
def setsOf (es : List Moment) : Set Sets := {sets | ∃ m ∈ es, m.post.sets = sets}

theorem Reboot.inFlash (hm : Reboot P c m)
    (h : InFlash P S m.pre.manager.store m.pre.persistSwitch m.pre.flash) (ht : Trusted P S)
    (hok : m.act.nvsOk) :
    InFlash P S m.post.manager.store m.post.persistSwitch m.post.flash ∧
      ∀ ev ∈ m.evs, isNvs ev = false := by
  obtain ⟨b, hact, hflash, hpersist, hpost⟩ := hm
  rw [hact] at hok hpost
  obtain ⟨hpost, hevs⟩ := Prod.mk.inj hpost
  have hoff : m.pre.persistSwitch ≠ some true → m.pre.flash = none := fun hne =>
    h.off (Bool.eq_false_iff.mpr fun hon => hne (h.switch.mp hon))
  have hboot := setup_inFlash ht h.copy hoff
  rw [← hflash, ← hpersist] at hboot
  rw [hpost, hevs]
  simp only [World.manager, hok.1, hok.2]
  exact hboot

/-- What every move of the device, reboots included, keeps. -/
theorem InFlash.life (h : InFlash P S m.pre.manager.store m.pre.persistSwitch m.pre.flash)
    (ht : Trusted P S) (hm : Step P c m ∨ Reboot P c m) (hok : m.act.nvsOk)
    (hmem : m.post.sets ∈ S) :
    InFlash P S m.post.manager.store m.post.persistSwitch m.post.flash ∧
      (m.pre.manager.store.persistEnabled = true → m.post.sets = m.pre.sets →
        (∀ on o, m.act ≠ .persistSwitch on o) → ∀ ev ∈ m.evs, isNvs ev = false) := by
  rcases hm with hm | hm
  · cases (step_case hm).nvs with
    | op o ok op persistSwitch =>
        rw [ok hok] at op
        obtain ⟨hin, hsilent⟩ := h.op ht hmem op
        rw [persistSwitch]
        exact ⟨hin, fun hon hsame _ => hsilent hon hsame⟩
    | toggled on o act store flash persistSwitch =>
        have hpre : m.pre.manager.store.sets ∈ S := by
          rw [World.sets, store, setPersistEnabled_sets] at hmem
          exact hmem
        have hO : o = .ok := by
          rw [act] at hok
          exact hok
        rw [hO] at store flash
        rw [store, flash, persistSwitch]
        exact ⟨h.toggle ht on hpre, fun _ _ hno => absurd act (hno on o)⟩
  · obtain ⟨hin, hsilent⟩ := hm.inFlash h ht hok
    exact ⟨hin, fun _ _ _ => hsilent⟩

theorem Lives.inFlash {b : BootInput} (h : Lives P c (setup P b).1 es w) (ht : Trusted P S)
    (h0 : InFlash P S (setup P b).1.manager.store b.persistSwitch (setup P b).1.flash)
    (hok : ∀ m ∈ es, m.act.nvsOk) (hes : ∀ m ∈ es, m.post.sets ∈ S) :
    InFlash P S w.manager.store w.persistSwitch w.flash :=
  Run.unless (I := fun w => InFlash P S w.manager.store w.persistSwitch w.flash)
    (Q := fun m => m.act.nvsOk ∧ m.post.sets ∈ S) h (fun m hm => ⟨hok m hm, hes m hm⟩) h0
    fun _ hm hq hi => (hi.life ht hm hq.1 hq.2).1

/-- The copy in flash mirrors the store, across any number of reboots. -/
theorem nvs_mirrors_store {b : BootInput} (hflash : b.flash = none) (hsync : b.nvsSync = .ok)
    (hload : b.nvsLoad = .ok) (h : Lives P c (setup P b).1 es w) (hok : ∀ m ∈ es, m.act.nvsOk)
    (ht : Trusted P (setsOf es)) :
    Mirrors P (setup P b).1 ∧ (∀ ev ∈ (setup P b).2, isNvs ev = false) ∧
      ∀ m ∈ es, Mirrors P m.post ∧
        (m.pre.manager.store.persistEnabled = true → m.post.sets = m.pre.sets →
          (∀ on o, m.act ≠ .persistSwitch on o) → ∀ ev ∈ m.evs, isNvs ev = false) := by
  have h0 : InFlash P (setsOf es) (setup P b).1.manager.store b.persistSwitch (setup P b).1.flash ∧
      ∀ ev ∈ (setup P b).2, isNvs ev = false := by
    have hcopy : HasCopy P (setsOf es) 0 b.flash := .inl ⟨hflash, rfl⟩
    simp only [Gbb.setup, World.manager, hsync, hload]
    exact setup_inFlash ht hcopy fun _ => hflash
  refine ⟨h0.1.mirrors, h0.2, fun m hmem => ?_⟩
  obtain ⟨before, after, hes⟩ := List.append_of_mem hmem
  have hsets : ∀ n ∈ es, n.post.sets ∈ setsOf es := fun n hn => ⟨n, hn, rfl⟩
  rw [hes] at h
  obtain ⟨hrun, hm, -⟩ := h.at
  have hbefore : ∀ n ∈ before, n ∈ es := fun n hn => by
    rw [hes]
    exact List.mem_append_left _ hn
  have hpre := Lives.inFlash hrun ht h0.1 (fun n hn => hok n (hbefore n hn))
    fun n hn => hsets n (hbefore n hn)
  obtain ⟨hpost, hsilent⟩ := hpre.life ht hm (hok m hmem) (hsets m hmem)
  exact ⟨hpost.mirrors, hsilent⟩

/-! ## A reboot -/

/-- The device is switched off and on again. -/
def rebootMove (P : Platform) (b : BootInput) (w : World) : Moment :=
  let b' := { b with flash := w.flash, persistSwitch := w.persistSwitch }
  ⟨w, .boot b', (setup P b').2, (setup P b').1⟩

theorem Lives.reboot {w₀ : World} (h : Lives P c w₀ es w) (b : BootInput) :
    Lives P c w₀ (es ++ [rebootMove P b w]) (rebootMove P b w).post :=
  Run.snoc (m := rebootMove P b w) h (.inr ⟨_, rfl, rfl, rfl, rfl⟩)

/-- A set is kept, persistence turned off and on, and the device restarted. -/
def keptDoc : Json := keepDoc 0 "A" "01060001000259CB"

def keptSets : Sets := OrdMap.empty.insert (text "A") [parseLine (lineDoc 1 "01060001000259CB")]

def keptDevice : Platform := bench [keptDoc, setsDoc keptSets]

def plugged : BootInput := { unplugged with persistSwitch := some true }

def keptRun : List Moment × World :=
  performAll keptDevice {} [arrives keptDoc (clockAt 0 0), .persistSwitch false .ok,
    .persistSwitch true .ok] (setup keptDevice plugged).1

/-- The library reads back what it wrote of the set. -/
theorem trusted_keptSets : Trusted keptDevice {keptSets} where
  injective sets hmem sets' hmem' _ _ _ := by rw [hmem, hmem']
  nonzero sets hmem _ := by
    rw [hmem]
    decide +kernel
  text sets hmem _ := by
    rw [hmem]
    decide +kernel
  readBack sets hmem _ := by
    rw [hmem]
    refine bench_roundTrip (by simp) fun other hother heq => ?_
    simp only [List.mem_cons, List.not_mem_nil, or_false] at hother
    rcases hother with rfl | rfl
    · exact absurd heq (by decide +kernel)
    · rfl

/-- The set is in flash, through the toggling and the reboot. -/
theorem nvs_mirrors_store_kept :
    keptRun.2.flash = some (buildEmergencySets keptDevice keptSets) ∧
      keptSets.isEmpty = false ∧
      Mirrors keptDevice (setup keptDevice plugged).1 ∧
      (∀ ev ∈ (setup keptDevice plugged).2, isNvs ev = false) ∧
      ∀ m ∈ keptRun.1 ++ [rebootMove keptDevice plugged keptRun.2],
        Mirrors keptDevice m.post ∧
          (m.pre.manager.store.persistEnabled = true → m.post.sets = m.pre.sets →
            (∀ on o, m.act ≠ .persistSwitch on o) → ∀ ev ∈ m.evs, isNvs ev = false) := by
  have hrun : Lives keptDevice {} (setup keptDevice plugged).1 keptRun.1 keptRun.2 :=
    Run.mono (performAll_runs rfl) fun _ hm => .inl hm
  have hsets : ∀ m ∈ keptRun.1 ++ [rebootMove keptDevice plugged keptRun.2],
      m.post.sets = keptSets := by decide +kernel
  have ht : setsOf (keptRun.1 ++ [rebootMove keptDevice plugged keptRun.2]) = {keptSets} := by
    refine Set.Subset.antisymm ?_ ?_
    · rintro _ ⟨m, hm, rfl⟩
      exact hsets m hm
    · rintro _ rfl
      exact ⟨_, List.mem_append_right _ (List.mem_singleton_self _), hsets _ (by simp)⟩
  refine ⟨by decide +kernel, by decide +kernel,
    nvs_mirrors_store rfl rfl rfl (hrun.reboot plugged) (fun m hm => ?_) (by
      rw [ht]
      exact trusted_keptSets)⟩
  rcases List.mem_append.mp hm with hm | hm
  · simp only [keptRun, performAll, List.mem_cons, List.not_mem_nil, or_false] at hm
    rcases hm with rfl | rfl | rfl <;> rfl
  · rw [List.mem_singleton.mp hm]
    exact ⟨rfl, rfl⟩

end Gbb
