import GbbDongle.Model.Store

/-!
# What the store operations touch

Flash is written and the hash remembered next to the sets, never instead of
them: `sync_nvs` and the persist switch leave map and revisions alone. The map
changes in one place at a time, and whenever it does the key in question gets
a fresh revision or none.
-/

namespace Gbb.EmergencyStore

variable {P : Platform} {o : NvsOutcome} {s : EmergencyStore} {flash : Flash}
  {key k : Bytes} {lines : List GbbLine}

/-- The events that only flash sees. -/
def isNvs : Event → Bool
  | .nvsSet _ | .nvsErase => true
  | _ => false

/-! ## Frame conditions -/

/-- Same sets, same revisions: all that may differ is the flash bookkeeping. -/
structure SameSets (s s' : EmergencyStore) : Prop where
  sets : s'.sets = s.sets
  revisions : s'.revisions = s.revisions
  nextRevision : s'.nextRevision = s.nextRevision

theorem syncNvs_sameSets (P : Platform) (o : NvsOutcome) (s : EmergencyStore) (flash : Flash) :
    SameSets s (syncNvs P o s flash).1 := by
  simp only [syncNvs]
  repeat' split
  all_goals exact ⟨rfl, rfl, rfl⟩

@[simp] theorem syncNvs_sets : (syncNvs P o s flash).1.sets = s.sets :=
  (syncNvs_sameSets P o s flash).sets

theorem syncNvs_isNvs {ev : Event} (h : ev ∈ (syncNvs P o s flash).2.2) : isNvs ev = true := by
  simp only [syncNvs] at h
  repeat' split at h
  all_goals first
    | (rw [List.mem_singleton] at h; rw [h]; rfl)
    | cases h

theorem setPersistEnabled_sameSets (P : Platform) (o : NvsOutcome) (enabled : Bool)
    (s : EmergencyStore) (flash : Flash) :
    SameSets s (setPersistEnabled P o enabled s flash).1 := by
  rw [setPersistEnabled]
  split
  · exact ⟨rfl, rfl, rfl⟩
  · split
    · have h := syncNvs_sameSets P o { s with persistEnabled := true, persistedHash := 0 } flash
      exact ⟨h.sets, h.revisions, h.nextRevision⟩
    · exact ⟨rfl, rfl, rfl⟩

@[simp] theorem setPersistEnabled_sets {enabled : Bool} :
    (setPersistEnabled P o enabled s flash).1.sets = s.sets :=
  (setPersistEnabled_sameSets P o enabled s flash).sets

theorem setPersistEnabled_isNvs {enabled : Bool} {ev : Event}
    (h : ev ∈ (setPersistEnabled P o enabled s flash).2.2) : isNvs ev = true := by
  rw [setPersistEnabled] at h
  split at h
  · cases h
  · split at h
    · exact syncNvs_isNvs h
    · dsimp only at h
      split at h
      · rw [List.mem_singleton] at h
        rw [h]
        rfl
      · cases h

/-! ## Changing the map -/

theorem clear_sets_ne (h : k ≠ key) : (s.clear key).sets.find? k = s.sets.find? k :=
  OrdMap.find?_erase_ne h

/-- What `set_lines` can come to: nothing touched, the key dropped, or the new
lines stored. -/
inductive SetCase (key : Bytes) (lines : List GbbLine) (s : EmergencyStore) :
    Bool × EmergencyStore → Prop
  | absent : lines = [] → s.sets.find? key = none → SetCase key lines s (false, s)
  | cleared (old : List GbbLine) : lines = [] → s.sets.find? key = some old →
      SetCase key lines s (true, s.clear key)
  | same (old : List GbbLine) : lines ≠ [] → s.sets.find? key = some old →
      sameExecutionContent old lines = true → SetCase key lines s (false, s)
  | stored : lines ≠ [] →
      (∀ old, s.sets.find? key = some old → sameExecutionContent old lines = false) →
      SetCase key lines s (true, s.put key lines)

theorem setLines_case (key : Bytes) (lines : List GbbLine) (s : EmergencyStore) :
    SetCase key lines s (s.setLines key lines) := by
  rw [setLines]
  split
  · next hl =>
      have hnil : lines = [] := List.isEmpty_iff.mp hl
      cases hf : s.sets.find? key with
      | none => exact .absent hnil hf
      | some old => exact .cleared old hnil hf
  · next hl =>
      have hne : lines ≠ [] := fun h => hl (List.isEmpty_iff.mpr h)
      cases hf : s.sets.find? key with
      | none => exact .stored hne (by rw [hf]; exact fun _ h => nomatch h)
      | some old =>
          simp only []
          split
          · next hs => exact .same old hne hf hs
          · next hs =>
              refine .stored hne fun old' h => ?_
              rw [hf] at h
              obtain rfl := Option.some.inj h
              simpa using hs

/-- `set_lines` never affects another key. -/
theorem setLines_sets_ne (h : k ≠ key) :
    (s.setLines key lines).2.sets.find? k = s.sets.find? k := by
  have hc := setLines_case key lines s
  generalize s.setLines key lines = r at hc ⊢
  cases hc with
  | absent => rfl
  | cleared => exact clear_sets_ne h
  | same => rfl
  | stored => exact OrdMap.find?_insert_ne h

/-- A message empties a store only by clearing its last key. -/
theorem setLines_isEmpty (h : s.sets.isEmpty = false) :
    (s.setLines key lines).2.sets.isEmpty = true ↔
      lines = [] ∧ (s.sets.erase key).isEmpty = true := by
  have hc := setLines_case key lines s
  generalize s.setLines key lines = r at hc ⊢
  cases hc with
  | absent hnil hf => simp [h, OrdMap.erase_of_find?_none hf]
  | cleared old hnil => exact ⟨fun he => ⟨hnil, he⟩, And.right⟩
  | same old hne => simp [h, hne]
  | stored hne => simp [hne, put]

/-! ## Restoring -/

/-- What `load_from_nvs` can come to: nothing there to read, a copy that cannot
be read and is dropped, or the sets of the copy. -/
inductive LoadCase (P : Platform) (o : NvsOutcome) (s : EmergencyStore) (flash : Flash) :
    Bool × EmergencyStore × Flash × List Event → Prop
  | nothing : o.opens = false ∨ o.sizes = false ∨ flash = none ∨ flash = some [] →
      LoadCase P o s flash (false, s, flash, [])
  | dropped (blob : Bytes) : flash = some blob →
      (if o.reads then parseEmergencySets P blob s.sets else none) = none →
      LoadCase P o s flash (false, { s with sets := .empty }, nvsEraseSets o flash, [.nvsErase])
  | restored (blob : Bytes) (sets : Sets) : flash = some blob → o.reads = true →
      parseEmergencySets P blob s.sets = some sets →
      LoadCase P o s flash
        (!sets.isEmpty,
          { s with
            sets := sets
            revisions := (reviseAll sets.entries s.revisions s.nextRevision).1
            nextRevision := (reviseAll sets.entries s.revisions s.nextRevision).2
            persistedHash := P.fnv1Hash blob },
          flash, [])

theorem loadFromNvs_case (P : Platform) (o : NvsOutcome) (s : EmergencyStore) (flash : Flash) :
    LoadCase P o s flash (loadFromNvs P o s flash) := by
  unfold loadFromNvs
  split
  · next h => exact .nothing (h.elim .inl fun h => .inr (.inl h))
  · split
    · exact .nothing (.inr (.inr (.inl rfl)))
    · next blob =>
        split
        · next h => exact .nothing (.inr (.inr (.inr (by rw [List.isEmpty_iff.mp h]))))
        · cases hr : o.reads with
          | false => exact .dropped blob rfl (by rw [hr]; rfl)
          | true =>
              simp only [if_true]
              cases hp : parseEmergencySets P blob s.sets with
              | none => exact .dropped blob rfl (by rw [hr, if_pos rfl, hp])
              | some sets => exact .restored blob sets rfl hr hp

/-- A map that was loaded is worth watching exactly when it has something in
it; a load that fails leaves a map that was empty empty. -/
theorem loadFromNvs_isEmpty (hs : s.sets.isEmpty = true) :
    (loadFromNvs P o s flash).2.1.sets.isEmpty = !(loadFromNvs P o s flash).1 := by
  have hc := loadFromNvs_case P o s flash
  generalize loadFromNvs P o s flash = r at hc ⊢
  cases hc with
  | nothing => exact hs
  | dropped => rfl
  | restored => exact (Bool.not_not _).symm

/-! ## Revisions -/

theorem sameExecutionContent_refl (ls : List GbbLine) : sameExecutionContent ls ls = true := by
  induction ls with
  | nil => rfl
  | cons l ls ih => simp [sameExecutionContent, ih]

theorem SameSets.revision {s' : EmergencyStore} (h : SameSets s s') (k : Bytes) :
    s'.revision k = s.revision k := by
  rw [EmergencyStore.revision, EmergencyStore.revision, h.revisions]

/-- The set of a key keeps its revision as long as it is the same set. -/
theorem setLines_revision {stored : List GbbLine} (h : s.sets.find? k = some stored)
    (h' : (s.setLines key lines).2.sets.find? k = some stored) :
    (s.setLines key lines).2.revision k = s.revision k := by
  have hc := setLines_case key lines s
  generalize s.setLines key lines = r at hc h' ⊢
  cases hc with
  | absent => rfl
  | same => rfl
  | cleared old hnil hf =>
      have hne : k ≠ key := by
        rintro rfl
        rw [show (s.clear k).sets.find? k = none from OrdMap.find?_erase_self] at h'
        cases h'
      exact congrArg (fun r : Option UInt32 => r.getD 0) (OrdMap.find?_erase_ne hne)
  | stored hnil hdiff =>
      have hne : k ≠ key := by
        rintro rfl
        rw [show (s.put k lines).sets.find? k = some lines from OrdMap.find?_insert_self] at h'
        obtain rfl := Option.some.inj h'
        have hd := hdiff lines h
        rw [sameExecutionContent_refl] at hd
        cases hd
      exact congrArg (fun r : Option UInt32 => r.getD 0) (OrdMap.find?_insert_ne hne)

/-- The store after `n` revisions, as long as the counter has not come round. -/
structure Numbered (n : Nat) (s : EmergencyStore) : Prop where
  counter : s.nextRevision.toNat = n
  bounds : ∀ k r, s.revisions.find? k = some r → 0 < r.toNat ∧ r.toNat ≤ n
  stored : ∀ k, s.sets.find? k ≠ none → s.revisions.find? k ≠ none

theorem Numbered.sameSets {n : Nat} {s' : EmergencyStore} (h : Numbered n s) (hs : SameSets s s') :
    Numbered n s' := by
  refine ⟨by rw [hs.nextRevision]; exact h.counter, ?_, ?_⟩
  · rw [hs.revisions]
    exact h.bounds
  · rw [hs.revisions, hs.sets]
    exact h.stored

theorem Numbered.clear {n : Nat} (h : Numbered n s) (key : Bytes) : Numbered n (s.clear key) := by
  refine ⟨h.counter, fun k r hr => ?_, fun k hk => ?_⟩
  · by_cases hne : k = key
    · subst hne
      rw [show (s.clear k).revisions.find? k = none from OrdMap.find?_erase_self] at hr
      cases hr
    · rw [show (s.clear key).revisions.find? k = s.revisions.find? k from
        OrdMap.find?_erase_ne hne] at hr
      exact h.bounds k r hr
  · by_cases hne : k = key
    · subst hne
      exact absurd OrdMap.find?_erase_self hk
    · rw [show (s.clear key).revisions.find? k = s.revisions.find? k from OrdMap.find?_erase_ne hne]
      rw [clear_sets_ne hne] at hk
      exact h.stored k hk

theorem toNat_next {n : Nat} {r : UInt32} (h : r.toNat = n) (hn : n + 1 < 2 ^ 32) :
    (r + 1).toNat = n + 1 := by
  rw [UInt32.toNat_add, h]
  exact Nat.mod_eq_of_lt hn

theorem Numbered.put {n : Nat} (h : Numbered n s) (hn : n + 1 < 2 ^ 32) (key : Bytes)
    (lines : List GbbLine) : Numbered (n + 1) (s.put key lines) := by
  have hnext : (s.nextRevision + 1).toNat = n + 1 := toNat_next h.counter hn
  refine ⟨hnext, fun k r hr => ?_, fun k hk => ?_⟩
  · by_cases hne : k = key
    · subst hne
      rw [show (s.put k lines).revisions.find? k = some (s.nextRevision + 1) from
        OrdMap.find?_insert_self] at hr
      obtain rfl := Option.some.inj hr
      omega
    · rw [show (s.put key lines).revisions.find? k = s.revisions.find? k from
        OrdMap.find?_insert_ne hne] at hr
      have := h.bounds k r hr
      omega
  · by_cases hne : k = key
    · subst hne
      rw [show (s.put k lines).revisions.find? k = some (s.nextRevision + 1) from
        OrdMap.find?_insert_self]
      nofun
    · rw [show (s.put key lines).revisions.find? k = s.revisions.find? k from
        OrdMap.find?_insert_ne hne]
      rw [show (s.put key lines).sets.find? k = s.sets.find? k from
        OrdMap.find?_insert_ne hne] at hk
      exact h.stored k hk

/-- The loop that numbers restored sets, one revision each. -/
theorem reviseAll_spec (l : List (Bytes × List GbbLine)) (revisions : OrdMap Bytes UInt32)
    (next : UInt32) (hlt : next.toNat + l.length < 2 ^ 32)
    (hb : ∀ k r, revisions.find? k = some r → 0 < r.toNat ∧ r.toNat ≤ next.toNat) :
    (reviseAll l revisions next).2.toNat = next.toNat + l.length ∧
      (∀ k r, (reviseAll l revisions next).1.find? k = some r →
        0 < r.toNat ∧ r.toNat ≤ next.toNat + l.length) ∧
      ∀ k, (revisions.find? k ≠ none ∨ ∃ ls, (k, ls) ∈ l) →
        (reviseAll l revisions next).1.find? k ≠ none := by
  induction l generalizing revisions next with
  | nil => exact ⟨rfl, hb, fun k hk => hk.elim id (fun ⟨_, h⟩ => absurd h List.not_mem_nil)⟩
  | cons e l ih =>
      obtain ⟨key, ls⟩ := e
      rw [List.length_cons] at hlt ⊢
      have hnext : (next + 1).toNat = next.toNat + 1 := toNat_next rfl (by omega)
      obtain ⟨h1, h2, h3⟩ := ih (revisions.insert key (next + 1)) (next + 1) (by omega) (by
        intro k r hr
        by_cases hne : k = key
        · subst hne
          rw [OrdMap.find?_insert_self] at hr
          obtain rfl := Option.some.inj hr
          omega
        · rw [OrdMap.find?_insert_ne hne] at hr
          have := hb k r hr
          omega)
      rw [reviseAll]
      refine ⟨by omega, fun k r hr => ?_, fun k hk => h3 k ?_⟩
      · have := h2 k r hr
        omega
      · by_cases hne : k = key
        · subst hne
          rw [OrdMap.find?_insert_self]
          exact .inl nofun
        · rcases hk with hk | ⟨ls', hk⟩
          · rw [OrdMap.find?_insert_ne hne]
            exact .inl hk
          · rcases List.mem_cons.mp hk with hk | hk
            · exact absurd (Prod.mk.inj hk).1 hne
            · exact .inr ⟨ls', hk⟩

/-- What boot restores is numbered from one on. -/
theorem loadFromNvs_numbered (hs : s.sets = .empty) (hr : s.revisions = .empty)
    (hn : s.nextRevision = 0)
    (hlt : (loadFromNvs P o s flash).2.1.sets.entries.length < 2 ^ 32) :
    Numbered (loadFromNvs P o s flash).2.1.sets.entries.length (loadFromNvs P o s flash).2.1 := by
  have hnone : ∀ k r, s.revisions.find? k = some r →
      0 < r.toNat ∧ r.toNat ≤ s.nextRevision.toNat := by
    rw [hr]
    nofun
  have hc := loadFromNvs_case P o s flash
  generalize loadFromNvs P o s flash = r at hc hlt ⊢
  cases hc with
  | nothing =>
      refine ⟨by rw [hs, hn]; rfl, fun k r h => ?_, ?_⟩
      · rw [hr] at h
        cases h
      · rw [hs]
        exact fun k hk => absurd rfl hk
  | dropped blob hf =>
      refine ⟨by rw [hn]; rfl, fun k r h => ?_, fun k hk => absurd rfl hk⟩
      rw [hr] at h
      cases h
  | restored blob sets hf _ hp =>
      have hzero : s.nextRevision.toNat = 0 := by rw [hn]; rfl
      obtain ⟨h1, h2, h3⟩ := reviseAll_spec sets.entries s.revisions s.nextRevision
        (by rw [hzero, Nat.zero_add]; exact hlt) hnone
      rw [hzero, Nat.zero_add] at h1 h2
      refine ⟨h1, h2, fun k hk => h3 k (.inr ?_)⟩
      obtain ⟨ls, hls⟩ := Option.ne_none_iff_exists'.mp hk
      exact ⟨ls, OrdMap.find?_eq_some.mp hls⟩

end Gbb.EmergencyStore
