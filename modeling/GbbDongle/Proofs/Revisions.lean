import GbbDongle.Lib.History
import GbbDongle.Proofs.Bench

/-!
# A revision identifies one stored content

Every store takes the next number of a counter that only goes up, so as long as
the counter has not come round no two keys share a revision, and a revision
that has been replaced or dropped is never given out again. The invariant is
`Keyed`: the two maps have the same keys, and the revisions are distinct and
lie within what the counter has reached. A key that has lost a revision is
`Past` it: what it has now is nothing, or newer.
-/

namespace Gbb

open History EmergencyStore

variable {P : Platform} {o : NvsOutcome} {flash : Flash} {s : EmergencyStore}
  {w : EmergencyStore × Flash} {k : Bytes} {calls : List StoreCall}

/-! ## The invariant -/

/-- Revisions no two keys share, none of them past the counter. -/
structure Distinct (revisions : OrdMap Bytes UInt32) (next : UInt32) : Prop where
  nonzero : ∀ k r, revisions.find? k = some r → r ≠ 0
  bound : ∀ k r, revisions.find? k = some r → r ≤ next
  inj : ∀ k k' r, revisions.find? k = some r → revisions.find? k' = some r → k = k'

structure Keyed (s : EmergencyStore) : Prop where
  keys : ∀ k, s.sets.find? k = none ↔ s.revisions.find? k = none
  distinct : Distinct s.revisions s.nextRevision

theorem lt_next {next : UInt32} (hlt : next.toNat + 1 < 2 ^ 32) : next < next + 1 := by
  rw [UInt32.lt_iff_toNat_lt, toNat_next rfl hlt]
  omega

theorem Distinct.empty {next : UInt32} : Distinct .empty next := by
  constructor
  · intro k r h
    cases h
  · intro k r h
    cases h
  · intro k k' r h
    cases h

theorem Distinct.erase {revisions : OrdMap Bytes UInt32} {next : UInt32}
    (h : Distinct revisions next) (key : Bytes) : Distinct (revisions.erase key) next := by
  have hold : ∀ k r, (revisions.erase key).find? k = some r → revisions.find? k = some r := by
    intro k r hk
    by_cases hne : k = key
    · rw [hne, OrdMap.find?_erase_self] at hk
      cases hk
    · rwa [OrdMap.find?_erase_ne hne] at hk
  constructor
  · intro k r hk
    exact h.nonzero k r (hold k r hk)
  · intro k r hk
    exact h.bound k r (hold k r hk)
  · intro k k' r hk hk'
    exact h.inj k k' r (hold k r hk) (hold k' r hk')

/-- The next number is nobody's yet. -/
theorem Distinct.insert {revisions : OrdMap Bytes UInt32} {next : UInt32}
    (h : Distinct revisions next) (hlt : next.toNat + 1 < 2 ^ 32) (key : Bytes) :
    Distinct (revisions.insert key (next + 1)) (next + 1) := by
  have hnext := lt_next hlt
  have hcase : ∀ k r, (revisions.insert key (next + 1)).find? k = some r →
      (k = key ∧ r = next + 1) ∨ (k ≠ key ∧ revisions.find? k = some r) := by
    intro k r hk
    by_cases hne : k = key
    · rw [hne, OrdMap.find?_insert_self] at hk
      exact .inl ⟨hne, (Option.some.inj hk).symm⟩
    · rw [OrdMap.find?_insert_ne hne] at hk
      exact .inr ⟨hne, hk⟩
  have hfresh : ∀ k, revisions.find? k ≠ some (next + 1) := by
    intro k hk
    exact absurd (h.bound k _ hk) (UInt32.not_le.mpr hnext)
  constructor
  · intro k r hk
    rcases hcase k r hk with ⟨-, rfl⟩ | ⟨-, hk⟩
    · intro hz
      rw [hz] at hnext
      exact UInt32.not_lt_zero hnext
    · exact h.nonzero k r hk
  · intro k r hk
    rcases hcase k r hk with ⟨-, rfl⟩ | ⟨-, hk⟩
    · exact UInt32.le_refl _
    · exact UInt32.le_trans (h.bound k r hk) (UInt32.le_of_lt hnext)
  · intro k k' r hk hk'
    rcases hcase k r hk with ⟨rfl, rfl⟩ | ⟨-, hk⟩
    · rcases hcase k' _ hk' with ⟨rfl, -⟩ | ⟨-, hk'⟩
      · rfl
      · exact absurd hk' (hfresh k')
    · rcases hcase k' r hk' with ⟨-, rfl⟩ | ⟨-, hk'⟩
      · exact absurd hk (hfresh k)
      · exact h.inj k k' r hk hk'

theorem Keyed.sameSets {s' : EmergencyStore} (h : Keyed s) (hs : SameSets s s') : Keyed s' := by
  constructor
  · rw [hs.sets, hs.revisions]
    exact h.keys
  · rw [hs.revisions, hs.nextRevision]
    exact h.distinct

theorem Keyed.clear (h : Keyed s) (key : Bytes) : Keyed (s.clear key) := by
  refine ⟨?_, h.distinct.erase key⟩
  intro k
  show (s.sets.erase key).find? k = none ↔ (s.revisions.erase key).find? k = none
  by_cases hne : k = key
  · rw [hne, OrdMap.find?_erase_self, OrdMap.find?_erase_self]
    exact ⟨fun _ => rfl, fun _ => rfl⟩
  · rw [OrdMap.find?_erase_ne hne, OrdMap.find?_erase_ne hne]
    exact h.keys k

theorem Keyed.clearAll : Keyed s.clearAll := by
  refine ⟨?_, Distinct.empty⟩
  intro k
  exact ⟨fun _ => rfl, fun _ => rfl⟩

theorem Keyed.put (h : Keyed s) (hlt : s.nextRevision.toNat + 1 < 2 ^ 32) (key : Bytes)
    (lines : List GbbLine) : Keyed (s.put key lines) := by
  refine ⟨?_, h.distinct.insert hlt key⟩
  intro k
  show (s.sets.insert key lines).find? k = none ↔
    (s.revisions.insert key (s.nextRevision + 1)).find? k = none
  by_cases hne : k = key
  · rw [hne, OrdMap.find?_insert_self, OrdMap.find?_insert_self]
    simp
  · rw [OrdMap.find?_insert_ne hne, OrdMap.find?_insert_ne hne]
    exact h.keys k

/-- Restored sets are numbered one after the other. -/
theorem Distinct.reviseAll {revisions : OrdMap Bytes UInt32} {next : UInt32}
    (h : Distinct revisions next) (l : List (Bytes × List GbbLine))
    (hlt : next.toNat + l.length < 2 ^ 32) :
    Distinct (reviseAll l revisions next).1 (reviseAll l revisions next).2 ∧
      (reviseAll l revisions next).2.toNat = next.toNat + l.length := by
  induction l generalizing revisions next with
  | nil => exact ⟨h, rfl⟩
  | cons e l ih =>
      rw [List.length_cons] at hlt ⊢
      have hnext : (next + 1).toNat = next.toNat + 1 := toNat_next rfl (by omega)
      obtain ⟨hdist, hcount⟩ := ih (h.insert (by omega) e.1) (by omega)
      refine ⟨hdist, ?_⟩
      rw [EmergencyStore.reviseAll, hcount]
      omega

theorem reviseAll_find?_eq_none {l : List (Bytes × List GbbLine)}
    {revisions : OrdMap Bytes UInt32} {next : UInt32} :
    (reviseAll l revisions next).1.find? k = none ↔
      (∀ e ∈ l, e.1 ≠ k) ∧ revisions.find? k = none := by
  induction l generalizing revisions next with
  | nil => simp [reviseAll]
  | cons e l ih =>
      rw [reviseAll, ih]
      by_cases hne : k = e.1
      · simp [hne]
      · rw [OrdMap.find?_insert_ne hne]
        simp [Ne.symm hne]

/-- A store that nothing has been put into since it was made. -/
structure Blank (s : EmergencyStore) : Prop where
  sets : s.sets = .empty
  revisions : s.revisions = .empty
  nextRevision : s.nextRevision = 0

/-- Store and flash after `load_from_nvs`. -/
def loaded (P : Platform) (o : NvsOutcome) (s : EmergencyStore) (flash : Flash) :
    EmergencyStore × Flash :=
  ((loadFromNvs P o s flash).2.1, (loadFromNvs P o s flash).2.2.1)

theorem Blank.keyed (h : Blank s) : Keyed s := by
  constructor
  · intro k
    rw [h.sets, h.revisions]
    exact ⟨fun _ => rfl, fun _ => rfl⟩
  · rw [h.revisions]
    exact Distinct.empty

/-- What boot leaves is keyed, and its revisions are those of the sets restored. -/
theorem loaded_keyed (P : Platform) (o : NvsOutcome) (flash : Flash) (h : Blank s)
    (hlt : (loaded P o s flash).1.sets.entries.length < 2 ^ 32) :
    Keyed (loaded P o s flash).1 ∧
      (loaded P o s flash).1.nextRevision.toNat = (loaded P o s flash).1.sets.entries.length := by
  have hc := loadFromNvs_case P o s flash
  rw [loaded] at hlt ⊢
  generalize loadFromNvs P o s flash = r at hc hlt ⊢
  cases hc with
  | nothing =>
      refine ⟨h.keyed, ?_⟩
      rw [h.nextRevision, h.sets]
      rfl
  | dropped blob =>
      refine ⟨⟨?_, ?_⟩, ?_⟩
      · intro k
        show _ ↔ s.revisions.find? k = none
        rw [h.revisions]
        exact ⟨fun _ => rfl, fun _ => rfl⟩
      · show Distinct s.revisions _
        rw [h.revisions]
        exact Distinct.empty
      · show s.nextRevision.toNat = 0
        rw [h.nextRevision]
        rfl
  | restored blob sets =>
      have hzero : s.nextRevision.toNat = 0 := by
        rw [h.nextRevision]
        rfl
      obtain ⟨hdist, hcount⟩ := h.keyed.distinct.reviseAll sets.entries
        (by rw [hzero, Nat.zero_add]; exact hlt)
      refine ⟨⟨?_, hdist⟩, ?_⟩
      · intro k
        rw [reviseAll_find?_eq_none, h.revisions, OrdMap.find?_eq_none]
        exact ⟨fun hk => ⟨hk, rfl⟩, And.left⟩
      · rw [hcount, hzero, Nat.zero_add]

/-! ## Calls -/

/-- The calls that store a set, each under a new revision. -/
def isStore (m : Move (EmergencyStore × Flash) StoreCall Event) : Bool :=
  match m.act with
  | .setLines key lines => !lines.isEmpty && (m.pre.1.setLines key lines).1
  | _ => false

/-- How many of the calls store a set. -/
def stores (P : Platform) (calls : List StoreCall) (w : EmergencyStore × Flash) : Nat :=
  (moves (StoreCall.perform P) calls w).countP isStore

/-- What a call comes to, as far as sets and revisions go. -/
inductive CallCase (m : Move (EmergencyStore × Flash) StoreCall Event) : Prop
  | same (sets : SameSets m.pre.1 m.post.1) (store : isStore m = false)
  | cleared (key : Bytes) (post : m.post.1 = m.pre.1.clear key) (store : isStore m = false)
  | emptied (post : m.post.1 = m.pre.1.clearAll) (store : isStore m = false)
  | stored (key : Bytes) (lines : List GbbLine) (post : m.post.1 = m.pre.1.put key lines)
      (changed : ∀ old, m.pre.1.sets.find? key = some old →
        sameExecutionContent old lines = false) (store : isStore m = true)

theorem call_case {m : Move (EmergencyStore × Flash) StoreCall Event}
    (h : m.act.perform P m.pre = (m.post, m.evs)) : CallCase m := by
  obtain ⟨pre, act, evs, post⟩ := m
  obtain ⟨rfl, rfl⟩ : (act.perform P pre).1 = post ∧ (act.perform P pre).2 = evs := by
    rw [show act.perform P pre = (post, evs) from h]
    exact ⟨rfl, rfl⟩
  cases act with
  | setLines key lines =>
      have hc := setLines_case key lines pre.1
      have hpost : ∀ r, pre.1.setLines key lines = r → CallCase
          ⟨pre, .setLines key lines, [], ((pre.1.setLines key lines).2, pre.2)⟩ := by
        intro r hr
        rw [hr] at hc ⊢
        cases hc with
        | absent hnil => exact .same ⟨rfl, rfl, rfl⟩ (by simp [isStore, hr])
        | cleared old hnil => exact .cleared key rfl (by simp [isStore, hnil])
        | same => exact .same ⟨rfl, rfl, rfl⟩ (by simp [isStore, hr])
        | stored hne hdiff => exact .stored key lines rfl hdiff (by simp [isStore, hr, hne])
      exact hpost _ rfl
  | clear key => exact .cleared key rfl rfl
  | clearAll => exact .emptied rfl rfl
  | setPersistEnabled enabled o =>
      exact .same (setPersistEnabled_sameSets P o enabled pre.1 pre.2) rfl
  | syncNvs o => exact .same (syncNvs_sameSets P o pre.1 pre.2) rfl

/-- The counter has room for one more. -/
def HasRoom (m : Move (EmergencyStore × Flash) StoreCall Event) : Prop :=
  isStore m = true → m.pre.1.nextRevision.toNat + 1 < 2 ^ 32

theorem CallCase.keyed {m : Move (EmergencyStore × Flash) StoreCall Event} (hm : CallCase m)
    (hroom : HasRoom m) (h : Keyed m.pre.1) : Keyed m.post.1 := by
  cases hm with
  | same sets => exact h.sameSets sets
  | cleared key post =>
      rw [post]
      exact h.clear key
  | emptied post =>
      rw [post]
      exact .clearAll
  | stored key lines post changed store =>
      rw [post]
      exact h.put (hroom store) key lines

theorem CallCase.counter {m : Move (EmergencyStore × Flash) StoreCall Event} (hm : CallCase m)
    (hroom : HasRoom m) : m.post.1.nextRevision.toNat =
      m.pre.1.nextRevision.toNat + if isStore m then 1 else 0 := by
  cases hm with
  | same sets store => rw [sets.nextRevision, store]; rfl
  | cleared key post store => rw [post, store]; rfl
  | emptied post store => rw [post, store]; rfl
  | stored key lines post changed store =>
      rw [post, store]
      exact toNat_next rfl (hroom store)

/-- With fewer stores than numbers the counter has room for each of them. -/
theorem moves_hasRoom (hfew : w.1.nextRevision.toNat + stores P calls w < 2 ^ 32) :
    ∀ m ∈ moves (StoreCall.perform P) calls w, HasRoom m := by
  induction calls generalizing w with
  | nil => exact fun m hm => absurd hm List.not_mem_nil
  | cons call calls ih =>
      rw [stores, moves, List.countP_cons] at hfew
      have hroom : HasRoom ⟨w, call, (call.perform P w).2, (call.perform P w).1⟩ := by
        intro hstore
        rw [if_pos hstore] at hfew
        show w.1.nextRevision.toNat + 1 < 2 ^ 32
        omega
      have hcount := (call_case rfl).counter hroom
      intro m hm
      rcases List.mem_cons.mp hm with rfl | hm
      · exact hroom
      · refine ih ?_ m hm
        rw [stores, hcount]
        dsimp only at hfew ⊢
        omega

theorem keyed_after (h : Keyed w.1)
    (hroom : ∀ m ∈ moves (StoreCall.perform P) calls w, HasRoom m) :
    Keyed (after (StoreCall.perform P) calls w).1 :=
  moves_run.unless (I := fun w => Keyed w.1) hroom h fun _ hm hq hi => (call_case hm).keyed hq hi

/-! ## One revision, one content -/

/-- The key has `lines`, under revision `r`. -/
structure Stays (k : Bytes) (lines : List GbbLine) (r : UInt32) (s : EmergencyStore) : Prop where
  sets : s.sets.find? k = some lines
  revision : s.revisions.find? k = some r

/-- The key has lost revision `r` for good. -/
structure Past (k : Bytes) (r : UInt32) (s : EmergencyStore) : Prop where
  given : r ≤ s.nextRevision
  gone : s.revision k = 0 ∨ r < s.revision k

theorem Past.ne {r : UInt32} (h : Past k r s) (hr : r ≠ 0) : s.revision k ≠ r := by
  intro heq
  rcases h.gone with hz | hlt
  · exact hr (heq.symm.trans hz)
  · rw [heq] at hlt
    exact absurd hlt (UInt32.lt_irrefl r)

/-- A revision that is not zero belongs to a set. -/
theorem Keyed.stays (h : Keyed s) (hr : s.revision k ≠ 0) :
    ∃ lines, Stays k lines (s.revision k) s := by
  rw [EmergencyStore.revision] at hr ⊢
  cases hrev : s.revisions.find? k with
  | none =>
      rw [hrev] at hr
      exact absurd rfl hr
  | some r =>
      have hset : s.sets.find? k ≠ none := by
        intro hnone
        rw [(h.keys k).mp hnone] at hrev
        cases hrev
      obtain ⟨lines, hlines⟩ := Option.ne_none_iff_exists'.mp hset
      exact ⟨lines, hlines, hrev⟩

theorem revision_clear (s : EmergencyStore) (k : Bytes) : (s.clear k).revision k = 0 := by
  rw [EmergencyStore.revision]
  show ((s.revisions.erase k).find? k).getD 0 = 0
  rw [OrdMap.find?_erase_self, Option.getD_none]

theorem revision_clear_ne {key : Bytes} (h : k ≠ key) :
    (s.clear key).revision k = s.revision k := by
  rw [EmergencyStore.revision, EmergencyStore.revision]
  show ((s.revisions.erase key).find? k).getD 0 = _
  rw [OrdMap.find?_erase_ne h]

theorem revision_put (s : EmergencyStore) (k : Bytes) (lines : List GbbLine) :
    (s.put k lines).revision k = s.nextRevision + 1 := by
  rw [EmergencyStore.revision]
  show ((s.revisions.insert k _).find? k).getD 0 = _
  rw [OrdMap.find?_insert_self, Option.getD_some]

theorem revision_put_ne {key : Bytes} {lines : List GbbLine} (h : k ≠ key) :
    (s.put key lines).revision k = s.revision k := by
  rw [EmergencyStore.revision, EmergencyStore.revision]
  show ((s.revisions.insert key _).find? k).getD 0 = _
  rw [OrdMap.find?_insert_ne h]

/-- Lost for good. -/
theorem CallCase.past {m : Move (EmergencyStore × Flash) StoreCall Event} (hm : CallCase m)
    (hroom : HasRoom m) {r : UInt32} (h : Past k r m.pre.1) : Past k r m.post.1 := by
  cases hm with
  | same sets =>
      refine ⟨?_, ?_⟩
      · rw [sets.nextRevision]
        exact h.given
      · rw [sets.revision]
        exact h.gone
  | cleared key post =>
      rw [post]
      refine ⟨h.given, ?_⟩
      by_cases hne : k = key
      · rw [← hne, revision_clear]
        exact .inl rfl
      · rw [revision_clear_ne hne]
        exact h.gone
  | emptied post =>
      rw [post]
      exact ⟨h.given, .inl rfl⟩
  | stored key lines post changed store =>
      have hnext := lt_next (hroom store)
      rw [post]
      refine ⟨UInt32.le_of_lt (UInt32.lt_of_le_of_lt h.given hnext), ?_⟩
      by_cases hne : k = key
      · rw [← hne, revision_put]
        exact .inr (UInt32.lt_of_le_of_lt h.given hnext)
      · rw [revision_put_ne hne]
        exact h.gone

/-- A call leaves the set of a key with its revision, or takes the revision. -/
theorem CallCase.stays {m : Move (EmergencyStore × Flash) StoreCall Event} (hm : CallCase m)
    (hroom : HasRoom m) (hkeyed : Keyed m.pre.1) {r : UInt32} {lines : List GbbLine}
    (h : Stays k lines r m.pre.1) : Stays k lines r m.post.1 ∨ Past k r m.post.1 := by
  have hgiven := hkeyed.distinct.bound k r h.revision
  cases hm with
  | same sets =>
      refine .inl ⟨?_, ?_⟩
      · rw [sets.sets]
        exact h.sets
      · rw [sets.revisions]
        exact h.revision
  | cleared key post =>
      rw [post]
      by_cases hne : k = key
      · refine .inr ⟨hgiven, .inl ?_⟩
        rw [← hne, revision_clear]
      · refine .inl ⟨?_, ?_⟩
        · rw [clear_sets_ne hne]
          exact h.sets
        · exact (OrdMap.find?_erase_ne hne).trans h.revision
  | emptied post =>
      rw [post]
      exact .inr ⟨hgiven, .inl rfl⟩
  | stored key lines' post changed store =>
      have hnext := lt_next (hroom store)
      rw [post]
      by_cases hne : k = key
      · refine .inr ⟨UInt32.le_of_lt (UInt32.lt_of_le_of_lt hgiven hnext), .inr ?_⟩
        rw [← hne, revision_put]
        exact UInt32.lt_of_le_of_lt hgiven hnext
      · refine .inl ⟨?_, ?_⟩
        · exact (OrdMap.find?_insert_ne hne).trans h.sets
        · exact (OrdMap.find?_insert_ne hne).trans h.revision

/-- A revision still there at the end was there, with its lines, all along. -/
theorem stays_of_not_past {r : UInt32} {lines : List GbbLine} (hkeyed : Keyed w.1)
    (hroom : ∀ m ∈ moves (StoreCall.perform P) calls w, HasRoom m) (h : Stays k lines r w.1)
    (hend : ¬ Past k r (after (StoreCall.perform P) calls w).1) :
    Stays k lines r (after (StoreCall.perform P) calls w).1 ∧
      ∀ m ∈ moves (StoreCall.perform P) calls w, Stays k lines r m.post.1 := by
  induction calls generalizing w with
  | nil => exact ⟨h, fun m hm => absurd hm List.not_mem_nil⟩
  | cons call calls ih =>
      have hfirst := hroom ⟨w, call, _, _⟩ (List.mem_cons_self ..)
      have hrest : ∀ m ∈ moves (StoreCall.perform P) calls (call.perform P w).1, HasRoom m :=
        fun m hm => hroom m (List.mem_cons_of_mem _ hm)
      rcases (call_case rfl).stays hfirst hkeyed h with hstays | hpast
      · obtain ⟨hlast, hmoves⟩ := ih ((call_case rfl).keyed hfirst hkeyed) hrest hstays hend
        refine ⟨hlast, ?_⟩
        intro m hm
        rcases List.mem_cons.mp hm with rfl | hm
        · exact hstays
        · exact hmoves m hm
      · refine absurd ?_ hend
        exact moves_run.unless (I := fun w => Past k r w.1) hrest hpast
          fun _ hm hq hi => (call_case hm).past hq hi

/-! ## What `set_lines` answers -/

/-- The answer is whether the map has changed, and a call that answers false
has touched nothing; no other key is affected either way. -/
theorem setLines_answer (key : Bytes) (lines : List GbbLine) (s : EmergencyStore) :
    ((s.setLines key lines).1 = true ↔ (s.setLines key lines).2.sets ≠ s.sets) ∧
      ((s.setLines key lines).1 = false ↔ (s.setLines key lines).2.sets = s.sets ∧
        (s.setLines key lines).2.revisions = s.revisions ∧
        (s.setLines key lines).2.nextRevision = s.nextRevision) ∧
      ∀ k ≠ key, (s.setLines key lines).2.sets.find? k = s.sets.find? k ∧
        (s.setLines key lines).2.revisions.find? k = s.revisions.find? k := by
  have hchanged : ∀ s' : EmergencyStore, s'.sets.find? key ≠ s.sets.find? key →
      s'.sets ≠ s.sets := by
    intro s' hfind heq
    exact hfind (by rw [heq])
  have hc := setLines_case key lines s
  generalize s.setLines key lines = r at hc ⊢
  cases hc with
  | absent => simp
  | same => simp
  | cleared old hnil hf =>
      have hsets : (s.clear key).sets ≠ s.sets := by
        apply hchanged
        rw [show (s.clear key).sets.find? key = none from OrdMap.find?_erase_self, hf]
        exact (Option.some_ne_none old).symm
      refine ⟨by simp [hsets], by simp [hsets], ?_⟩
      intro k hne
      exact ⟨OrdMap.find?_erase_ne hne, OrdMap.find?_erase_ne hne⟩
  | stored hne hdiff =>
      have hsets : (s.put key lines).sets ≠ s.sets := by
        apply hchanged
        rw [show (s.put key lines).sets.find? key = some lines from OrdMap.find?_insert_self]
        intro hf
        have hsame := hdiff lines hf.symm
        rw [sameExecutionContent_refl] at hsame
        cases hsame
      refine ⟨by simp [hsets], by simp [hsets], ?_⟩
      intro k hne
      exact ⟨OrdMap.find?_insert_ne hne, OrdMap.find?_insert_ne hne⟩

/-- Whatever was restored at boot and whatever was called since: maps and
counter are in step at every point, and a revision seen at two points stands
for the same lines at both and in between. -/
theorem revision_identifies_content (hnew : Blank s) {first later : List StoreCall}
    (hfew : (loaded P o s flash).1.sets.entries.length +
      stores P (first ++ later) (loaded P o s flash) < 2 ^ 32) :
    let u := after (StoreCall.perform P) first (loaded P o s flash)
    let w := after (StoreCall.perform P) later u
    Keyed w.1 ∧
      (∀ k, u.1.revision k ≠ 0 → w.1.revision k = u.1.revision k →
        ∃ lines, u.1.sets.find? k = some lines ∧ w.1.sets.find? k = some lines ∧
          ∀ m ∈ moves (StoreCall.perform P) later u, m.post.1.sets.find? k = some lines) ∧
      ∀ key lines,
        ((w.1.setLines key lines).1 = true ↔ (w.1.setLines key lines).2.sets ≠ w.1.sets) ∧
        ((w.1.setLines key lines).1 = false ↔ (w.1.setLines key lines).2.sets = w.1.sets ∧
          (w.1.setLines key lines).2.revisions = w.1.revisions ∧
          (w.1.setLines key lines).2.nextRevision = w.1.nextRevision) ∧
        ∀ k ≠ key, (w.1.setLines key lines).2.sets.find? k = w.1.sets.find? k ∧
          (w.1.setLines key lines).2.revisions.find? k = w.1.revisions.find? k := by
  intro u w
  obtain ⟨hboot, hcounter⟩ := loaded_keyed P o flash hnew (by omega)
  rw [← hcounter] at hfew
  have hroom := moves_hasRoom hfew
  rw [moves_append] at hroom
  have hfirst := fun m hm => hroom m (List.mem_append_left _ hm)
  have hlater := fun m hm => hroom m (List.mem_append_right _ hm)
  have hu : Keyed u.1 := keyed_after hboot hfirst
  refine ⟨keyed_after hu hlater, ?_, fun key lines => setLines_answer key lines w.1⟩
  intro k hr hsame
  obtain ⟨lines, hstays⟩ := hu.stays hr
  have hend : ¬ Past k (u.1.revision k) w.1 := fun hpast => hpast.ne hr hsame
  obtain ⟨hw, hmoves⟩ := stays_of_not_past hu hlater hstays hend
  exact ⟨lines, hstays.sets, hw.sets, fun m hm => (hmoves m hm).sets⟩

/-- A set is stored, another one next to it, and the first sent again. -/
def resent : List StoreCall :=
  [.setLines (text "B") [parseLine (lineDoc 1 "0102")],
    .setLines (text "A") [parseLine (lineDoc 1 "0103")]]

/-- The second sending leaves revision and lines as they were. -/
theorem revision_identifies_content_resent :
    ∃ lines, ∀ m ∈ moves (StoreCall.perform (bench [])) resent
      (after (StoreCall.perform (bench [])) [.setLines (text "A") [parseLine (lineDoc 1 "0103")]]
        (loaded (bench []) .ok {} none)), m.post.1.sets.find? (text "A") = some lines := by
  have hblank : Blank {} := ⟨rfl, rfl, rfl⟩
  obtain ⟨-, hsame, -⟩ := @revision_identifies_content (bench []) .ok none {} hblank
    [.setLines (text "A") [parseLine (lineDoc 1 "0103")]] resent (by decide +kernel)
  obtain ⟨lines, -, -, hbetween⟩ := hsame (text "A") (by decide +kernel) (by decide +kernel)
  exact ⟨lines, hbetween⟩

end Gbb
