import GbbDongle.Proofs.Mirror
import GbbDongle.Proofs.Revisions

/-!
# The remembered hash when NVS calls fail

`persisted_hash_` is meant to say what the key holds: zero for nothing, else
the hash of the blob. `Truthful` states it, and `syncNvs_case` and
`sync_truthful_iff` go through everything a sync can come to, with any of its
NVS calls failing. Three ways lead away from the truth. An erase that fails is
not reported by its helper, so the hash is zeroed over a blob that is still
there. Turning persistence on starts from hash zero whatever the key holds, so
a leftover blob stays unless that very sync writes over it. And a blob may
hash to zero. Apart from these every pattern of failures keeps the hash true,
and a true hash is what makes the next sync bring flash into step.
-/

namespace Gbb

open History EmergencyStore

variable {P : Platform} {o : NvsOutcome} {flash : Flash} {s : EmergencyStore}
  {w : EmergencyStore × Flash} {call : StoreCall} {calls : List StoreCall} {sets : Sets}

/-! ## A sync -/

/-- What `sync_nvs` can come to. -/
inductive SyncCase (P : Platform) (o : NvsOutcome) (s : EmergencyStore) (flash : Flash) :
    EmergencyStore × Flash × List Event → Prop
  | closed : s.persistEnabled = false ∨ o.opens = false → SyncCase P o s flash (s, flash, [])
  | nothing : s.persistEnabled = true → o.opens = true → s.sets.isEmpty = true →
      s.persistedHash = 0 → SyncCase P o s flash (s, flash, [])
  | erased : s.persistEnabled = true → o.opens = true → s.sets.isEmpty = true →
      s.persistedHash ≠ 0 →
      SyncCase P o s flash ({ s with persistedHash := 0 }, nvsEraseSets o flash, [.nvsErase])
  | long : s.persistEnabled = true → o.opens = true → s.sets.isEmpty = false →
      ¬ Written P s.sets → SyncCase P o s flash (s, flash, [])
  | current : s.persistEnabled = true → o.opens = true → Written P s.sets →
      P.fnv1Hash (buildEmergencySets P s.sets) = s.persistedHash →
      SyncCase P o s flash (s, flash, [])
  | refused : s.persistEnabled = true → o.opens = true → Written P s.sets →
      P.fnv1Hash (buildEmergencySets P s.sets) ≠ s.persistedHash → o.sets = false →
      SyncCase P o s flash (s, flash, [.nvsSet (buildEmergencySets P s.sets)])
  | uncommitted : s.persistEnabled = true → o.opens = true → Written P s.sets →
      P.fnv1Hash (buildEmergencySets P s.sets) ≠ s.persistedHash → o.sets = true →
      o.commits = false →
      SyncCase P o s flash
        (s, some (buildEmergencySets P s.sets), [.nvsSet (buildEmergencySets P s.sets)])
  | written : s.persistEnabled = true → o.opens = true → Written P s.sets →
      P.fnv1Hash (buildEmergencySets P s.sets) ≠ s.persistedHash → o.sets = true →
      o.commits = true →
      SyncCase P o s flash
        ({ s with persistedHash := P.fnv1Hash (buildEmergencySets P s.sets) },
          some (buildEmergencySets P s.sets), [.nvsSet (buildEmergencySets P s.sets)])

theorem syncNvs_case (P : Platform) (o : NvsOutcome) (s : EmergencyStore) (flash : Flash) :
    SyncCase P o s flash (syncNvs P o s flash) := by
  rw [syncNvs]
  split
  · next h => exact .closed h
  · next h =>
      obtain ⟨hon, hopen⟩ : s.persistEnabled = true ∧ o.opens = true := by simpa using h
      split
      · next hempty =>
          split
          · next hz => exact .nothing hon hopen hempty hz
          · next hz => exact .erased hon hopen hempty hz
      · next hempty =>
          rw [Bool.not_eq_true] at hempty
          dsimp only
          split
          · next hlong =>
              exact .long hon hopen hempty fun hw => (written_iff.mp hw).2 hlong
          · next hlong =>
              have hw : Written P s.sets := written_iff.mpr ⟨hempty, hlong⟩
              split
              · next hhash => exact .current hon hopen hw hhash
              · next hhash =>
                  split
                  · next hset => exact .refused hon hopen hw hhash hset
                  · next hset =>
                      rw [Bool.not_eq_false] at hset
                      split
                      · next hcom => exact .uncommitted hon hopen hw hhash hset hcom
                      · next hcom =>
                          rw [Bool.not_eq_false] at hcom
                          exact .written hon hopen hw hhash hset hcom

/-! ## The truth about the key -/

/-- While persistence is on: zero for an absent key, else the hash of its blob. -/
structure Truthful (P : Platform) (w : EmergencyStore × Flash) : Prop where
  absent : w.1.persistEnabled = true → w.1.persistedHash = 0 → w.2 = none
  present : w.1.persistEnabled = true → w.1.persistedHash ≠ 0 →
    ∃ blob, w.2 = some blob ∧ P.fnv1Hash blob = w.1.persistedHash

theorem Truthful.of_off (h : w.1.persistEnabled = false) : Truthful P w := by
  constructor
  · intro hon
    rw [h] at hon
    cases hon
  · intro hon
    rw [h] at hon
    cases hon

/-- A hash of zero is true of an absent key only. -/
theorem truthful_zero (hon : s.persistEnabled = true) (hz : s.persistedHash = 0) :
    Truthful P (s, flash) ↔ flash = none := by
  constructor
  · intro h
    exact h.absent hon hz
  · intro h
    exact ⟨fun _ _ => h, fun _ hne => absurd hz hne⟩

/-- The hash of the blob that is there is true unless it is zero. -/
theorem truthful_blob {blob : Bytes} (hon : s.persistEnabled = true)
    (hhash : s.persistedHash = P.fnv1Hash blob) :
    Truthful P (s, some blob) ↔ P.fnv1Hash blob ≠ 0 := by
  constructor
  · intro h hz
    exact absurd (h.absent hon (hhash.trans hz)) (by simp)
  · intro hne
    refine ⟨fun _ hz => absurd (hhash.symm.trans hz) hne, ?_⟩
    intro _ _
    exact ⟨blob, rfl, hhash.symm⟩

instance : Decidable (Written P sets) := inferInstanceAs (Decidable (_ ∧ _))

/-- A sync that makes the hash untrue: an erase that fails, or a blob that
hashes to zero, where the hash was not zero. -/
def SyncDrifts (P : Platform) (o : NvsOutcome) (s : EmergencyStore) : Prop :=
  s.persistEnabled = true ∧ o.opens = true ∧ s.persistedHash ≠ 0 ∧
    ((s.sets.isEmpty = true ∧ o.erases = false) ∨
      (Written P s.sets ∧ P.fnv1Hash (buildEmergencySets P s.sets) = 0 ∧ o.sets = true))

/-- The forced sync writes the sets, and they do not hash to zero. -/
def Overwrites (P : Platform) (o : NvsOutcome) (s : EmergencyStore) : Prop :=
  o.opens = true ∧ o.sets = true ∧ Written P s.sets ∧
    P.fnv1Hash (buildEmergencySets P s.sets) ≠ 0

theorem Written.not_empty (h : Written P sets) : sets.isEmpty ≠ true := by
  rw [h.1]
  exact Bool.false_ne_true

theorem sync_truthful_iff (h : Truthful P (s, flash)) (hcom : o.commits = true) :
    Truthful P ((syncNvs P o s flash).1, (syncNvs P o s flash).2.1) ↔ ¬ SyncDrifts P o s := by
  have hc := syncNvs_case P o s flash
  generalize syncNvs P o s flash = r at hc ⊢
  cases hc with
  | closed hclosed =>
      refine iff_of_true h ?_
      rintro ⟨hon, hopen, -⟩
      rw [hon, hopen] at hclosed
      simp at hclosed
  | nothing _ _ _ hz => exact iff_of_true h fun hd => hd.2.2.1 hz
  | erased hon hopen hempty hz =>
      refine (truthful_zero (by exact hon) (by rfl)).trans ?_
      obtain ⟨blob, hblob, -⟩ := h.present hon hz
      have hflash : flash = some blob := hblob
      have hnot : ¬ Written P s.sets := fun hw => hw.not_empty hempty
      have hdrift : SyncDrifts P o s ↔ o.erases = false := by
        simp [SyncDrifts, hon, hopen, hz, hempty, hnot]
      rw [hdrift, Bool.not_eq_false]
      cases he : o.erases with
      | true => simp [nvsEraseSets, he]
      | false => simp [nvsEraseSets, he, hflash]
  | long _ _ hempty hnot =>
      refine iff_of_true h ?_
      rintro ⟨-, -, -, ⟨he, -⟩ | ⟨hw, -⟩⟩
      · rw [hempty] at he
        cases he
      · exact hnot hw
  | current _ _ hw hhash =>
      refine iff_of_true h ?_
      rintro ⟨-, -, hz, ⟨he, -⟩ | ⟨-, h0, -⟩⟩
      · exact hw.not_empty he
      · exact hz (hhash.symm.trans h0)
  | refused _ _ hw _ hset =>
      refine iff_of_true h ?_
      rintro ⟨-, -, -, ⟨he, -⟩ | ⟨-, -, ho⟩⟩
      · exact hw.not_empty he
      · rw [hset] at ho
        cases ho
  | uncommitted _ _ _ _ _ hno =>
      rw [hcom] at hno
      cases hno
  | written hon hopen hw hhash hset =>
      refine (truthful_blob (by exact hon) (by rfl)).trans ?_
      have hne : P.fnv1Hash (buildEmergencySets P s.sets) = 0 → s.persistedHash ≠ 0 :=
        fun h0 hz => hhash (h0.trans hz.symm)
      have hdrift : SyncDrifts P o s ↔ P.fnv1Hash (buildEmergencySets P s.sets) = 0 := by
        constructor
        · rintro ⟨-, -, -, ⟨he, -⟩ | ⟨-, h0, -⟩⟩
          · exact absurd he hw.not_empty
          · exact h0
        · intro h0
          exact ⟨hon, hopen, hne h0, .inr ⟨hw, h0, hset⟩⟩
      rw [hdrift]

/-- Persistence is turned on over a key that holds something: true only if the
forced sync writes over it. -/
theorem switchOn_truthful_iff (hcom : o.commits = true) (hon : s.persistEnabled = true)
    (hz : s.persistedHash = 0) :
    Truthful P ((syncNvs P o s flash).1, (syncNvs P o s flash).2.1) ↔
      (flash = none ∨ Overwrites P o s) := by
  cases hflash : flash with
  | none =>
      have h0 : Truthful P (s, none) := (truthful_zero hon hz).mpr rfl
      rw [sync_truthful_iff h0 hcom]
      exact iff_of_true (fun hd => hd.2.2.1 hz) (.inl rfl)
  | some blob =>
      have hsame : ¬ Truthful P (s, some blob) := by
        rw [truthful_zero hon hz]
        simp
      rw [or_iff_right (Option.some_ne_none blob)]
      have hc := syncNvs_case P o s (some blob)
      generalize syncNvs P o s (some blob) = r at hc ⊢
      cases hc with
      | closed hclosed =>
          refine iff_of_false hsame ?_
          rintro ⟨hopen, -⟩
          rw [hon, hopen] at hclosed
          simp at hclosed
      | nothing _ _ hempty _ => exact iff_of_false hsame fun ho => ho.2.2.1.not_empty hempty
      | erased _ _ _ hne => exact absurd hz hne
      | long _ _ _ hnot => exact iff_of_false hsame fun ho => hnot ho.2.2.1
      | current _ _ _ hhash => exact iff_of_false hsame fun ho => ho.2.2.2 (hhash.trans hz)
      | refused _ _ _ _ hset =>
          refine iff_of_false hsame ?_
          rintro ⟨-, ho, -⟩
          rw [hset] at ho
          cases ho
      | uncommitted _ _ _ _ _ hno =>
          rw [hcom] at hno
          cases hno
      | written _ hopen hw _ hset =>
          refine (truthful_blob (by exact hon) (by rfl)).trans ?_
          exact ⟨fun hne => ⟨hopen, hset, hw, hne⟩, fun ho => ho.2.2.2⟩

/-! ## Calls -/

/-- The NVS commit of a call succeeds. -/
def StoreCall.commits : StoreCall → Bool
  | .setPersistEnabled _ o | .syncNvs o => o.commits
  | _ => true

/-- The calls that make the hash untrue. -/
def Drifts (P : Platform) (call : StoreCall) (w : EmergencyStore × Flash) : Prop :=
  match call with
  | .syncNvs o => SyncDrifts P o w.1
  | .setPersistEnabled enabled o =>
      enabled = true ∧ w.1.persistEnabled = false ∧ w.2 ≠ none ∧ ¬ Overwrites P o w.1
  | _ => False

instance : Decidable (SyncDrifts P o s) := inferInstanceAs (Decidable (_ ∧ _))

instance : Decidable (Overwrites P o s) := inferInstanceAs (Decidable (_ ∧ _))

instance decidableDrifts : (call : StoreCall) → Decidable (Drifts P call w)
  | .syncNvs o => inferInstanceAs (Decidable (SyncDrifts P o w.1))
  | .setPersistEnabled _ _ => inferInstanceAs (Decidable (_ ∧ _))
  | .setLines _ _ | .clear _ | .clearAll => inferInstanceAs (Decidable False)

/-- One call from a true hash. -/
theorem call_truthful_iff (h : Truthful P w) (hcom : call.commits = true) :
    Truthful P (call.perform P w).1 ↔ ¬ Drifts P call w := by
  obtain ⟨s, flash⟩ := w
  cases call with
  | setLines key lines =>
      obtain ⟨hon, hhash⟩ := setLines_bookkeeping key lines s
      refine iff_of_true ⟨?_, ?_⟩ id
      · show (s.setLines key lines).2.persistEnabled = true →
          (s.setLines key lines).2.persistedHash = 0 → _
        rw [hon, hhash]
        exact h.absent
      · show (s.setLines key lines).2.persistEnabled = true →
          (s.setLines key lines).2.persistedHash ≠ 0 →
          ∃ blob, _ ∧ P.fnv1Hash blob = (s.setLines key lines).2.persistedHash
        rw [hon, hhash]
        exact h.present
  | clear key => exact iff_of_true ⟨h.absent, h.present⟩ id
  | clearAll => exact iff_of_true ⟨h.absent, h.present⟩ id
  | syncNvs o => exact sync_truthful_iff h hcom
  | setPersistEnabled enabled o =>
      show Truthful P ((setPersistEnabled P o enabled s flash).1,
          (setPersistEnabled P o enabled s flash).2.1) ↔
        ¬ (enabled = true ∧ s.persistEnabled = false ∧ flash ≠ none ∧ ¬ Overwrites P o s)
      rw [setPersistEnabled]
      split
      · next hsame =>
          refine iff_of_true h ?_
          rintro ⟨rfl, hoff, -⟩
          rw [hoff] at hsame
          cases hsame
      · next hdiff =>
          cases enabled with
          | true =>
              have hoff : s.persistEnabled = false := by
                rw [← Bool.not_eq_true]
                exact fun hon => hdiff hon.symm
              rw [if_pos rfl, switchOn_truthful_iff (by exact hcom) rfl rfl]
              simp only [hoff, true_and, not_and, not_not]
              exact or_iff_not_imp_left
          | false => exact iff_of_true (.of_off rfl) fun hd => Bool.false_ne_true hd.1

/-- A run from a true hash. -/
theorem moves_truthful_iff (h : Truthful P w) (hcom : ∀ call ∈ calls, call.commits = true) :
    (∀ m ∈ moves (StoreCall.perform P) calls w, Truthful P m.post) ↔
      ∀ m ∈ moves (StoreCall.perform P) calls w, ¬ Drifts P m.act m.pre := by
  induction calls generalizing w with
  | nil => simp [moves]
  | cons call calls ih =>
      have hstep := call_truthful_iff h (hcom call (List.mem_cons_self ..))
      have hrest := fun h' => ih (w := (call.perform P w).1) h' fun x hx =>
        hcom x (List.mem_cons_of_mem _ hx)
      rw [moves, List.forall_mem_cons, List.forall_mem_cons]
      constructor
      · rintro ⟨hfirst, hlater⟩
        exact ⟨hstep.mp hfirst, (hrest hfirst).mp hlater⟩
      · rintro ⟨hfirst, hlater⟩
        exact ⟨hstep.mpr hfirst, (hrest (hstep.mpr hfirst)).mpr hlater⟩

/-! ## Boot -/

/-- Store and flash when `setup` is done. -/
def booted (P : Platform) (oSync oLoad : NvsOutcome) (persist : Option Bool) (flash : Flash) :
    EmergencyStore × Flash :=
  ((({} : EmergencyManager).setup P oSync oLoad persist flash).1.store,
    (({} : EmergencyManager).setup P oSync oLoad persist flash).2.1)

/-- A boot that leaves a blob in the key under a hash of zero: it was not read,
or not understood and not erased either, or its hash is zero. -/
def BootDrifts (P : Platform) (o : NvsOutcome) (persist : Option Bool) (flash : Flash) : Prop :=
  persist = some true ∧ ∃ blob, flash = some blob ∧
    (o.opens = false ∨ o.sizes = false ∨ blob = [] ∨
      ((if o.reads then parseEmergencySets P blob .empty else none) = none ∧ o.erases = false) ∨
      ((if o.reads then parseEmergencySets P blob .empty else none) ≠ none ∧
        P.fnv1Hash blob = 0))

/-- The sync that turning persistence on forces at boot finds an empty store
and a hash of zero, and does nothing. -/
theorem booted_on (oSync oLoad : NvsOutcome) :
    booted P oSync oLoad (some true) flash = loaded P oLoad { persistEnabled := true } flash := by
  have hsync : setPersistEnabled P oSync true {} flash =
      ({ persistEnabled := true }, flash, []) := by
    rw [setPersistEnabled, if_neg (by decide), if_pos rfl, syncNvs]
    split <;> rfl
  rw [booted, EmergencyManager.setup, hsync]
  simp only [loaded]
  split <;> rfl

/-- There is nothing to read: NVS does not answer, or the key is absent or empty. -/
theorem loadFromNvs_nothing
    (h : o.opens = false ∨ o.sizes = false ∨ flash = none ∨ flash = some []) :
    loadFromNvs P o s flash = (false, s, flash, []) := by
  unfold loadFromNvs
  split
  · rfl
  · next hopen =>
      rw [not_or] at hopen
      rcases h with h | h | rfl | rfl
      · exact absurd h hopen.1
      · exact absurd h hopen.2
      · rfl
      · rfl

/-- Nothing in the key, nothing in the store. -/
theorem booted_none {oSync oLoad : NvsOutcome} {persist : Option Bool} :
    (booted P oSync oLoad persist none).1.sets = .empty := by
  rcases persist with _ | _ | _
  · rfl
  · rfl
  · rw [booted_on, loaded, loadFromNvs_nothing (.inr (.inr (.inl rfl)))]

/-- A blob that is read back is kept, one that is not is dropped. -/
theorem bootDrifts_blob {blob : Bytes} (hopens : o.opens = true) (hsizes : o.sizes = true)
    (hblob : blob ≠ []) {copy : Option Sets}
    (hcopy : (if o.reads then parseEmergencySets P blob .empty else none) = copy) :
    BootDrifts P o (some true) (some blob) ↔
      (copy = none ∧ o.erases = false) ∨ (copy ≠ none ∧ P.fnv1Hash blob = 0) := by
  rw [BootDrifts, ← hcopy]
  simp [hopens, hsizes, hblob]

theorem boot_truthful_iff {oSync oLoad : NvsOutcome} {persist : Option Bool} :
    Truthful P (booted P oSync oLoad persist flash) ↔ ¬ BootDrifts P oLoad persist flash := by
  by_cases hon : persist = some true
  · subst hon
    rw [booted_on, loaded]
    by_cases hno : oLoad.opens = false ∨ oLoad.sizes = false ∨ flash = none ∨ flash = some []
    · rw [loadFromNvs_nothing hno]
      refine (truthful_zero (by rfl) (by rfl)).trans ?_
      cases flash with
      | none => simp [BootDrifts]
      | some blob =>
          refine iff_of_false (by simp) (not_not_intro ⟨rfl, blob, rfl, ?_⟩)
          rcases hno with h | h | h | h
          · exact .inl h
          · exact .inr (.inl h)
          · cases h
          · exact .inr (.inr (.inl (Option.some.inj h)))
    · have hc := loadFromNvs_case P oLoad { persistEnabled := true } flash
      generalize loadFromNvs P oLoad { persistEnabled := true } flash = r at hc ⊢
      simp only [not_or] at hno
      obtain ⟨hopens, hsizes, hsome, hblob⟩ := hno
      cases hc with
      | nothing h =>
          rcases h with h | h | h | h
          · exact absurd h hopens
          · exact absurd h hsizes
          · exact absurd h hsome
          · exact absurd h hblob
      | dropped blob hf hp =>
          have hparse : (if oLoad.reads then parseEmergencySets P blob .empty else none) = none :=
            hp
          refine (truthful_zero (by rfl) (by rfl)).trans ?_
          rw [hf] at hblob ⊢
          rw [bootDrifts_blob (by simpa using hopens) (by simpa using hsizes)
            (fun h => hblob (by rw [h])) hparse]
          cases he : oLoad.erases <;> simp [nvsEraseSets, he]
      | restored blob sets hf hreads hp =>
          have hparse : (if oLoad.reads then parseEmergencySets P blob .empty else none) =
              some sets := by
            rw [if_pos hreads]
            exact hp
          rw [hf] at hblob ⊢
          rw [bootDrifts_blob (by simpa using hopens) (by simpa using hsizes)
            (fun h => hblob (by rw [h])) hparse]
          refine (truthful_blob (by rfl) (by rfl)).trans ?_
          simp
  · refine iff_of_true (.of_off ?_) fun hd => hon hd.1
    rcases persist with _ | _ | _
    · rfl
    · rfl
    · exact absurd rfl hon

/-! ## Sets and their copy -/

/-- The copy flash is to have of some sets: nothing of none. -/
def copyOf (P : Platform) (sets : Sets) : Flash :=
  if sets.isEmpty then none else some (buildEmergencySets P sets)

theorem eq_empty_of_isEmpty (h : sets.isEmpty = true) : sets = .empty := by
  apply OrdMap.ext
  exact List.isEmpty_iff.mp h

/-- A copy that NVS hands out is read back as the sets it is of, and the hash
remembered for it is its own. -/
theorem booted_copyOf (oSync : NvsOutcome) {oLoad : NvsOutcome} (hst : Storable sets)
    (hfits : (P.serialize (setsDoc sets)).length < jsonBuildTruncatedSize)
    (hread : P.deserialize (P.serialize (setsDoc sets)) = some (setsDoc sets))
    (hempty : P.deserialize [] = none) (hopens : oLoad.opens = true) (hsizes : oLoad.sizes = true)
    (hreads : oLoad.reads = true) :
    (booted P oSync oLoad (some true) (copyOf P sets)).1.sets = sets ∧
      (booted P oSync oLoad (some true) (copyOf P sets)).2 = copyOf P sets ∧
      (booted P oSync oLoad (some true) (copyOf P sets)).1.persistedHash =
        if sets.isEmpty then 0 else P.fnv1Hash (buildEmergencySets P sets) := by
  rw [booted_on, loaded, copyOf]
  cases he : sets.isEmpty with
  | true =>
      rw [if_pos rfl, loadFromNvs_nothing (.inr (.inr (.inl rfl))), eq_empty_of_isEmpty he]
      exact ⟨rfl, rfl, rfl⟩
  | false =>
      have hw : Written P sets := ⟨he, hfits⟩
      have hparse : parseEmergencySets P (buildEmergencySets P sets) .empty = some sets := by
        rw [hw.blob]
        exact parseEmergencySets_serialize hst hread
      have htext : buildEmergencySets P sets ≠ [] := by
        rw [hw.blob]
        intro hnil
        rw [hnil, hempty] at hread
        cases hread
      rw [if_neg Bool.false_ne_true, if_neg Bool.false_ne_true]
      have hc := loadFromNvs_case P oLoad { persistEnabled := true }
        (some (buildEmergencySets P sets))
      generalize loadFromNvs P oLoad { persistEnabled := true }
        (some (buildEmergencySets P sets)) = r at hc ⊢
      cases hc with
      | nothing hno => simp [hopens, hsizes, htext] at hno
      | dropped blob hf hno =>
          obtain rfl := Option.some.inj hf
          rw [if_pos hreads] at hno
          exact absurd (hparse.symm.trans hno) (by simp)
      | restored blob sets' hf _ hp =>
          obtain rfl := Option.some.inj hf
          obtain rfl := Option.some.inj (hparse.symm.trans hp)
          exact ⟨rfl, rfl, rfl⟩

/-! ## When the failures stop -/

/-- From a true hash a sync that does not fail brings the key in step: it is
erased for an empty store, and else holds the sets, unless their hash is zero
or collides with that of the blob that is there. -/
theorem sync_agrees (h : Truthful P w) (hon : w.1.persistEnabled = true) :
    (w.1.sets.isEmpty = true → (syncNvs P .ok w.1 w.2).2.1 = none) ∧
      (Written P w.1.sets → P.fnv1Hash (buildEmergencySets P w.1.sets) ≠ 0 →
        (∀ blob, w.2 = some blob → P.fnv1Hash blob = P.fnv1Hash (buildEmergencySets P w.1.sets) →
          blob = buildEmergencySets P w.1.sets) →
        (syncNvs P .ok w.1 w.2).2.1 = some (buildEmergencySets P w.1.sets)) := by
  have hc := syncNvs_case P .ok w.1 w.2
  generalize syncNvs P .ok w.1 w.2 = r at hc ⊢
  cases hc with
  | closed hclosed =>
      rw [hon] at hclosed
      simp [NvsOutcome.ok] at hclosed
  | nothing _ _ hempty hz => exact ⟨fun _ => h.absent hon hz, fun hw => absurd hempty hw.not_empty⟩
  | erased _ _ hempty => exact ⟨fun _ => rfl, fun hw => absurd hempty hw.not_empty⟩
  | long _ _ hempty hnot => exact ⟨fun he => absurd (hempty.symm.trans he) Bool.false_ne_true,
      fun hw => absurd hw hnot⟩
  | current _ _ hw hhash =>
      refine ⟨fun he => absurd he hw.not_empty, ?_⟩
      intro _ hne hclash
      obtain ⟨blob, hflash, hblob⟩ := h.present hon (hhash ▸ hne)
      rw [hflash, hclash blob hflash (hblob.trans hhash.symm)]
  | refused _ _ _ _ hset => exact absurd hset (by decide)
  | uncommitted _ _ _ _ _ hno => exact absurd hno (by decide)
  | written _ _ hw => exact ⟨fun he => absurd he hw.not_empty, fun _ _ _ => rfl⟩

/-- From boot on, the remembered hash is true in every state exactly when
neither the boot nor any call drifts; and while it is, the first sync that does
not fail brings the key in step, so that the next boot restores the sets that
are stored and brings none back that are gone. -/
theorem remembered_hash_true_iff {oSync oLoad : NvsOutcome} {persist : Option Bool}
    (hcommits : ∀ call ∈ calls, call.commits = true) :
    let start := booted P oSync oLoad persist flash
    let w := after (StoreCall.perform P) calls start
    ((Truthful P start ∧ ∀ m ∈ moves (StoreCall.perform P) calls start, Truthful P m.post) ↔
      (¬ BootDrifts P oLoad persist flash ∧
        ∀ m ∈ moves (StoreCall.perform P) calls start, ¬ Drifts P m.act m.pre)) ∧
    (¬ BootDrifts P oLoad persist flash →
      (∀ m ∈ moves (StoreCall.perform P) calls start, ¬ Drifts P m.act m.pre) →
      w.1.persistEnabled = true →
      (w.1.sets.isEmpty = true → (syncNvs P .ok w.1 w.2).2.1 = none ∧
        ∀ oSync' oLoad' persist',
          (booted P oSync' oLoad' persist' (syncNvs P .ok w.1 w.2).2.1).1.sets = .empty) ∧
      (Written P w.1.sets → P.fnv1Hash (buildEmergencySets P w.1.sets) ≠ 0 →
        (∀ blob, w.2 = some blob → P.fnv1Hash blob = P.fnv1Hash (buildEmergencySets P w.1.sets) →
          blob = buildEmergencySets P w.1.sets) →
        (syncNvs P .ok w.1 w.2).2.1 = some (buildEmergencySets P w.1.sets) ∧
        (Storable w.1.sets →
          P.deserialize (P.serialize (setsDoc w.1.sets)) = some (setsDoc w.1.sets) →
          P.deserialize [] = none → ∀ oSync' oLoad' : NvsOutcome,
            oLoad'.opens = true → oLoad'.sizes = true → oLoad'.reads = true →
            (booted P oSync' oLoad' (some true) (syncNvs P .ok w.1 w.2).2.1).1.sets =
              w.1.sets))) := by
  intro start w
  have hiff : (Truthful P start ∧
      ∀ m ∈ moves (StoreCall.perform P) calls start, Truthful P m.post) ↔
      (¬ BootDrifts P oLoad persist flash ∧
        ∀ m ∈ moves (StoreCall.perform P) calls start, ¬ Drifts P m.act m.pre) := by
    rw [boot_truthful_iff]
    exact and_congr_right fun hboot =>
      moves_truthful_iff (boot_truthful_iff.mpr hboot) hcommits
  refine ⟨hiff, ?_⟩
  intro hboot hcalls hon
  obtain ⟨hstart, hmoves⟩ := hiff.mpr ⟨hboot, hcalls⟩
  have hw : Truthful P w := by
    refine moves_run.unless (I := Truthful P) (Q := fun m => Truthful P m.post) hmoves hstart ?_
    exact fun _ _ hq _ => hq
  obtain ⟨hempty, hfull⟩ := sync_agrees hw hon
  constructor
  · intro he
    refine ⟨hempty he, ?_⟩
    intro oSync' oLoad' persist'
    rw [hempty he]
    exact booted_none
  · intro hwritten hhash hclash
    have hkey := hfull hwritten hhash hclash
    refine ⟨hkey, ?_⟩
    intro hst hread hnil oSync' oLoad' hopens hsizes hreads
    have hcopy : copyOf P w.1.sets = some (buildEmergencySets P w.1.sets) :=
      if_neg hwritten.not_empty
    rw [hkey, ← hcopy]
    exact (booted_copyOf oSync' hst hwritten.2 hread hnil hopens hsizes hreads).1

/-- The set of `keptSets` is stored and written. -/
def keepCalls : List StoreCall :=
  [.setLines (text "A") [parseLine (lineDoc 1 "01060001000259CB")], .syncNvs .ok]

/-- NVS does not open, then refuses the blob, then works; the set is cleared. -/
def roughCalls : List StoreCall :=
  [.setLines (text "A") [parseLine (lineDoc 1 "01060001000259CB")],
    .syncNvs { opens := false }, .syncNvs { sets := false }, .syncNvs .ok, .clear (text "A")]

/-- Through all of it the hash stays true, and the next sync empties the key. -/
theorem remembered_hash_true_rough :
    (∀ m ∈ moves (StoreCall.perform keptDevice) roughCalls
        (booted keptDevice .ok .ok (some true) none), Truthful keptDevice m.post) ∧
      let w := after (StoreCall.perform keptDevice) roughCalls
        (booted keptDevice .ok .ok (some true) none)
      (syncNvs keptDevice .ok w.1 w.2).2.1 = none := by
  have hboot : ¬ BootDrifts keptDevice .ok (some true) none := by simp [BootDrifts]
  have hcalls : ∀ m ∈ moves (StoreCall.perform keptDevice) roughCalls
      (booted keptDevice .ok .ok (some true) none), ¬ Drifts keptDevice m.act m.pre := by
    decide +kernel
  obtain ⟨hiff, hnext⟩ := @remembered_hash_true_iff keptDevice none roughCalls .ok .ok (some true)
    (by decide)
  exact ⟨(hiff.mpr ⟨hboot, hcalls⟩).2,
    ((hnext hboot hcalls (by decide +kernel)).1 (by decide +kernel)).1⟩

/-- The set is cleared and its erase fails: the hash says there is nothing, the
next sync believes it, and the set comes back at the next boot. -/
theorem failed_erase_forgotten :
    let w := after (StoreCall.perform keptDevice)
      (keepCalls ++ [.clear (text "A"), .syncNvs { erases := false }])
      (booted keptDevice .ok .ok (some true) none)
    ¬ Truthful keptDevice w ∧ w.1.sets.isEmpty = true ∧
      (syncNvs keptDevice .ok w.1 w.2).2.1 = w.2 ∧
      (booted keptDevice .ok .ok (some true) w.2).1.sets = keptSets := by
  refine ⟨?_, by decide +kernel, by decide +kernel, by decide +kernel⟩
  intro h
  exact absurd (h.absent (by decide +kernel) (by decide +kernel)) (by decide +kernel)

/-! ## The reboot -/

/-- Decoding undoes encoding, and so the first sync after a reboot finds the
blob it would write already there. -/
theorem sets_survive_reboot (hst : Storable sets)
    (hfits : (P.serialize (setsDoc sets)).length < jsonBuildTruncatedSize)
    (hread : P.deserialize (P.serialize (setsDoc sets)) = some (setsDoc sets))
    (hempty : P.deserialize [] = none) :
    parseEmergencySets P (buildEmergencySets P sets) .empty = some sets ∧
      ∀ oSync oLoad : NvsOutcome, oLoad.opens = true → oLoad.sizes = true → oLoad.reads = true →
        let w := booted P oSync oLoad (some true) (copyOf P sets)
        w.1.sets = sets ∧ buildEmergencySets P w.1.sets = buildEmergencySets P sets ∧
          ∀ o, (syncNvs P o w.1 w.2).2.1 = copyOf P sets ∧ (syncNvs P o w.1 w.2).2.2 = [] := by
  constructor
  · rw [buildEmergencySets, P.buildJson_complete hfits]
    exact parseEmergencySets_serialize hst hread
  · intro oSync oLoad hopens hsizes hreads w
    obtain ⟨hsets, hcopy, hhash⟩ := booted_copyOf oSync hst hfits hread hempty hopens hsizes
      hreads
    have hw : w.1.sets = sets := hsets
    refine ⟨hw, by rw [hw], ?_⟩
    intro o
    have hz : w.1.persistedHash = if sets.isEmpty then 0 else
      P.fnv1Hash (buildEmergencySets P sets) := hhash
    have hsame : Written P w.1.sets →
        P.fnv1Hash (buildEmergencySets P w.1.sets) = w.1.persistedHash := by
      rw [hw]
      intro hwritten
      rw [hz, if_neg hwritten.not_empty]
    have hc := syncNvs_case P o w.1 w.2
    rw [show w.2 = copyOf P sets from hcopy] at hc ⊢
    generalize syncNvs P o w.1 (copyOf P sets) = r at hc ⊢
    cases hc with
    | closed => exact ⟨rfl, rfl⟩
    | nothing => exact ⟨rfl, rfl⟩
    | long => exact ⟨rfl, rfl⟩
    | current => exact ⟨rfl, rfl⟩
    | erased _ _ he hne =>
        rw [hw] at he
        rw [hz, if_pos he] at hne
        exact absurd rfl hne
    | refused _ _ hwritten hne => exact absurd (hsame hwritten) hne
    | uncommitted _ _ hwritten hne => exact absurd (hsame hwritten) hne
    | written _ _ hwritten hne => exact absurd (hsame hwritten) hne

/-- The set of `keptSets`, read back by the library of `keptDevice`. -/
theorem keptSets_storable : Storable keptSets := by
  intro e he
  have hkey : e = (text "A", [parseLine (lineDoc 1 "01060001000259CB")]) :=
    List.mem_singleton.mp he
  rw [hkey]
  have hnul : (0 : UInt8) ∉ text "A" := by decide
  refine ⟨hnul, by simp, by decide, ?_⟩
  intro l hl
  rw [List.mem_singleton.mp hl]
  exact parseLine_readable _

theorem keptSets_written : Written keptDevice keptSets := by decide +kernel

theorem keptSets_readBack :
    keptDevice.deserialize (keptDevice.serialize (setsDoc keptSets)) = some (setsDoc keptSets) :=
  trusted_keptSets.readBack keptSets rfl keptSets_written

theorem sets_survive_reboot_kept :
    parseEmergencySets keptDevice (buildEmergencySets keptDevice keptSets) .empty = some keptSets ∧
      (booted keptDevice .ok .ok (some true) (copyOf keptDevice keptSets)).1.sets = keptSets := by
  obtain ⟨hdecode, hreboot⟩ := sets_survive_reboot keptSets_storable keptSets_written.2
    keptSets_readBack (by decide +kernel)
  exact ⟨hdecode, (hreboot .ok .ok rfl rfl rfl).1⟩

/-! ## Turning persistence on -/

/-- With every NVS call succeeding, turning persistence on brings the key in
step exactly when an empty store finds it absent, and a store that is not empty
has a blob whose hash is not zero or finds that very blob there. Then a reboot
restores what is in RAM. -/
theorem switch_on_copies_iff (hoff : s.persistEnabled = false)
    (hfits : (P.serialize (setsDoc s.sets)).length < jsonBuildTruncatedSize) :
    let r := setPersistEnabled P .ok true s flash
    (r.2.1 = copyOf P s.sets ↔ (s.sets.isEmpty = true → flash = none) ∧
      (s.sets.isEmpty = false → P.fnv1Hash (buildEmergencySets P s.sets) ≠ 0 ∨
        flash = some (buildEmergencySets P s.sets))) ∧
    (r.2.1 = copyOf P s.sets → Storable s.sets →
      P.deserialize (P.serialize (setsDoc s.sets)) = some (setsDoc s.sets) →
      P.deserialize [] = none →
      ∀ oSync oLoad : NvsOutcome, oLoad.opens = true → oLoad.sizes = true → oLoad.reads = true →
        (booted P oSync oLoad (some true) r.2.1).1.sets = s.sets) := by
  intro r
  refine ⟨?_, ?_⟩
  · have hr : r = syncNvs P .ok { s with persistEnabled := true, persistedHash := 0 } flash := by
      show setPersistEnabled P .ok true s flash = _
      rw [setPersistEnabled, hoff, if_neg (by decide), if_pos rfl]
    have hc := syncNvs_case P .ok { s with persistEnabled := true, persistedHash := 0 } flash
    rw [hr, copyOf]
    generalize syncNvs P .ok { s with persistEnabled := true, persistedHash := 0 } flash = r' at hc ⊢
    cases hc with
    | closed hclosed => simp [NvsOutcome.ok] at hclosed
    | nothing _ _ he =>
        have hempty : s.sets.isEmpty = true := he
        simp [hempty]
    | erased _ _ _ hne => exact absurd rfl hne
    | long _ _ he hnot => exact absurd ⟨he, hfits⟩ hnot
    | current _ _ hw hhash =>
        have hfull : s.sets.isEmpty = false := hw.1
        have hz : P.fnv1Hash (buildEmergencySets P s.sets) = 0 := hhash
        simp [hfull, hz]
    | refused _ _ _ _ hset => exact absurd hset (by decide)
    | uncommitted _ _ _ _ _ hno => exact absurd hno (by decide)
    | written _ _ hw hne =>
        have hfull : s.sets.isEmpty = false := hw.1
        have hz : P.fnv1Hash (buildEmergencySets P s.sets) ≠ 0 := hne
        simp [hfull, hz]
  · intro hcopy hst hread hempty oSync oLoad hopens hsizes hreads
    rw [hcopy]
    exact (booted_copyOf oSync hst hfits hread hempty hopens hsizes hreads).1

/-- The set in RAM replaces whatever the key holds, and is restored. -/
theorem switch_on_copies_kept :
    (booted keptDevice .ok .ok (some true)
      (setPersistEnabled keptDevice .ok true { sets := keptSets } (some (text "old"))).2.1).1.sets =
        keptSets := by
  obtain ⟨hiff, hreboot⟩ := @switch_on_copies_iff keptDevice (some (text "old"))
    { sets := keptSets } rfl keptSets_written.2
  refine hreboot (hiff.mpr ⟨?_, ?_⟩) keptSets_storable keptSets_readBack (by decide +kernel)
    .ok .ok rfl rfl rfl
  · intro he
    exact absurd he keptSets_written.not_empty
  · intro _
    exact .inl (by decide +kernel)

/-- A device that booted with persistence off over a leftover set, and whose
store is empty: the set stays in the key, and comes back at the next boot. -/
theorem leftover_survives_switch_on :
    let w := booted keptDevice .ok .ok (some false) (copyOf keptDevice keptSets)
    let r := setPersistEnabled keptDevice .ok true w.1 w.2
    w.1.persistEnabled = false ∧ w.1.sets.isEmpty = true ∧
      (keptDevice.serialize (setsDoc w.1.sets)).length < jsonBuildTruncatedSize ∧
      r.2.1 ≠ copyOf keptDevice w.1.sets ∧
      (booted keptDevice .ok .ok (some true) r.2.1).1.sets = keptSets := by
  decide +kernel

end Gbb
