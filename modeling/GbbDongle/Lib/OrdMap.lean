import Mathlib.Data.List.Pairwise
import Mathlib.Order.Bounds.Defs
import Mathlib.Order.Lattice

/-!
# Ordered maps

A finite map kept as the list of its entries in increasing key order, with the
order as a field, so that a list that is out of order cannot be passed for a
map. Iteration is the list itself; `first?` and `upperBound?` are the two ways
a cursor is placed in it, at the beginning and just past a key.

Everything is proved from one fact: an entry is in the list exactly when its
key looks up to its value (`find?_eq_some`).
-/

/-- A finite map from `K` to `V`, in key order. -/
structure OrdMap (K V : Type*) [LinearOrder K] where
  entries : List (K × V)
  ordered : entries.Pairwise fun a b => a.1 < b.1
deriving DecidableEq

namespace OrdMap

variable {K V : Type*} [LinearOrder K] {m : OrdMap K V} {k k' : K} {v v' : V}

@[ext] theorem ext {m n : OrdMap K V} (h : m.entries = n.entries) : m = n := by
  cases m; cases n; cases h; rfl

/-- The map without entries. -/
def empty : OrdMap K V := ⟨[], .nil⟩

def isEmpty (m : OrdMap K V) : Bool := m.entries.isEmpty

def find? (m : OrdMap K V) (k : K) : Option V :=
  (m.entries.find? fun e => decide (e.1 = k)).map Prod.snd

/-- Store `v` under `k`, in place of whatever was there. -/
def insert (m : OrdMap K V) (k : K) (v : V) : OrdMap K V where
  entries := m.entries.filter (fun e => decide (e.1 < k)) ++
    (k, v) :: m.entries.filter fun e => decide (k < e.1)
  ordered := by
    rw [List.pairwise_append, List.pairwise_cons]
    refine ⟨m.ordered.filter _, ⟨fun e he => ?_, m.ordered.filter _⟩, fun a ha b hb => ?_⟩
    · exact of_decide_eq_true (List.mem_filter.mp he).2
    · have hak : a.1 < k := of_decide_eq_true (List.mem_filter.mp ha).2
      rcases List.mem_cons.mp hb with rfl | hb
      · exact hak
      · exact hak.trans (of_decide_eq_true (List.mem_filter.mp hb).2)

def erase (m : OrdMap K V) (k : K) : OrdMap K V where
  entries := m.entries.filter fun e => decide (e.1 ≠ k)
  ordered := m.ordered.filter _

/-- The entry with the least key. -/
def first? (m : OrdMap K V) : Option (K × V) := m.entries.head?

/-- The first entry whose key is greater than `k`. -/
def upperBound? (m : OrdMap K V) (k : K) : Option (K × V) :=
  m.entries.find? fun e => decide (k < e.1)

/-- The keys, as a set. -/
def keys (m : OrdMap K V) : Set K := {k | m.find? k ≠ none}

/-! ## Looking up -/

/-- Two entries of one key are one entry. -/
theorem entry_unique (h : (k, v) ∈ m.entries) (h' : (k, v') ∈ m.entries) : v = v' := by
  by_contra hne
  have hpair : (k, v) ≠ (k, v') := fun heq => hne (Prod.mk.inj heq).2
  have hp : m.entries.Pairwise fun a b => a.1 ≠ b.1 := m.ordered.imp fun hlt => hlt.ne
  have : Std.Symm fun a b : K × V => a.1 ≠ b.1 := ⟨fun _ _ hab => hab.symm⟩
  exact hp.forall h h' hpair rfl

theorem find?_eq_some : m.find? k = some v ↔ (k, v) ∈ m.entries := by
  constructor
  · intro h
    obtain ⟨e, he, rfl⟩ := Option.map_eq_some_iff.mp h
    have hk : e.1 = k := by simpa using List.find?_some he
    exact hk ▸ List.mem_of_find?_eq_some he
  · intro h
    cases hf : m.entries.find? (fun e => decide (e.1 = k)) with
    | none =>
        have := List.find?_eq_none.mp hf _ h
        simp at this
    | some e =>
        have hk : e.1 = k := by simpa using List.find?_some hf
        have hmem := List.mem_of_find?_eq_some hf
        rw [find?, hf, Option.map_some]
        exact congrArg some (entry_unique (hk ▸ hmem) h)

theorem find?_eq_none : m.find? k = none ↔ ∀ e ∈ m.entries, e.1 ≠ k := by
  rw [find?, Option.map_eq_none_iff, List.find?_eq_none]
  simp

theorem mem_keys_of_mem {e : K × V} (h : e ∈ m.entries) : e.1 ∈ m.keys := by
  intro hn
  exact find?_eq_none.mp hn e h rfl

theorem isEmpty_iff : m.isEmpty = true ↔ ∀ k, m.find? k = none := by
  rw [isEmpty, List.isEmpty_iff]
  constructor
  · intro h k
    rw [find?_eq_none, h]
    simp
  · intro h
    refine List.eq_nil_iff_forall_not_mem.mpr fun e he => ?_
    exact find?_eq_none.mp (h e.1) e he rfl

theorem not_isEmpty_of_find? (h : m.find? k = some v) : m.isEmpty = false := by
  rw [← Bool.not_eq_true, isEmpty_iff]
  intro hn
  rw [hn k] at h
  cases h

@[simp] theorem find?_insert_self : (m.insert k v).find? k = some v := by
  rw [find?_eq_some]
  simp [insert]

theorem find?_insert_ne (h : k' ≠ k) : (m.insert k v).find? k' = m.find? k' := by
  ext w
  rw [find?_eq_some, find?_eq_some]
  simp only [insert, List.mem_append, List.mem_filter, decide_eq_true_eq, List.mem_cons,
    Prod.mk.injEq]
  constructor
  · rintro (⟨hm, -⟩ | ⟨rfl, -⟩ | ⟨hm, -⟩)
    · exact hm
    · exact absurd rfl h
    · exact hm
  · intro hm
    rcases lt_or_gt_of_ne h with hlt | hgt
    · exact .inl ⟨hm, hlt⟩
    · exact .inr (.inr ⟨hm, hgt⟩)

@[simp] theorem find?_erase_self : (m.erase k).find? k = none := by
  rw [find?_eq_none]
  simp [erase]

theorem find?_erase_ne (h : k' ≠ k) : (m.erase k).find? k' = m.find? k' := by
  ext w
  rw [find?_eq_some, find?_eq_some]
  simp [erase, h]

@[simp] theorem isEmpty_insert : (m.insert k v).isEmpty = false :=
  not_isEmpty_of_find? find?_insert_self

/-- Erasing an absent key changes nothing. -/
theorem erase_of_find?_none (h : m.find? k = none) : m.erase k = m := by
  apply ext
  rw [find?_eq_none] at h
  exact List.filter_eq_self.mpr fun e he => by simpa using h e he

/-- Storing past the last key appends. -/
theorem entries_insert_of_lt (h : ∀ e ∈ m.entries, e.1 < k) :
    (m.insert k v).entries = m.entries ++ [(k, v)] := by
  have h1 : m.entries.filter (fun e => decide (e.1 < k)) = m.entries :=
    List.filter_eq_self.mpr fun e he => decide_eq_true (h e he)
  have h2 : m.entries.filter (fun e => decide (k < e.1)) = [] :=
    List.filter_eq_nil_iff.mpr fun e he => by simpa using (h e he).le
  show m.entries.filter _ ++ (k, v) :: m.entries.filter _ = _
  rw [h1, h2]

/-! ## Cursors -/

/-- The beginning is the least key there is. -/
theorem first?_eq_some (h : m.first? = some (k, v)) :
    m.find? k = some v ∧ IsLeast m.keys k := by
  obtain ⟨rest, hr⟩ : ∃ rest, m.entries = (k, v) :: rest := by
    rw [first?] at h
    exact List.head?_eq_some_iff.mp h
  have hmem : (k, v) ∈ m.entries := by simp [hr]
  refine ⟨find?_eq_some.mpr hmem, mem_keys_of_mem hmem, fun k' hk' => ?_⟩
  obtain ⟨w, hw⟩ := Option.ne_none_iff_exists'.mp hk'
  rw [find?_eq_some, hr, List.mem_cons] at hw
  rcases hw with hw | hw
  · exact (Prod.mk.inj hw).1.ge
  · have hp := m.ordered
    rw [hr, List.pairwise_cons] at hp
    exact (hp.1 _ hw).le

theorem first?_eq_none : m.first? = none ↔ m.isEmpty = true := by
  rw [first?, isEmpty, List.head?_eq_none_iff, List.isEmpty_iff]

/-- The upper bound of `k` is the least of the keys past it. -/
theorem upperBound?_eq_some (h : m.upperBound? k = some (k', v)) :
    m.find? k' = some v ∧ IsLeast {x | x ∈ m.keys ∧ k < x} k' := by
  have hmem := List.mem_of_find?_eq_some h
  have hlt : k < k' := by
    rw [upperBound?] at h
    simpa using List.find?_some h
  refine ⟨find?_eq_some.mpr hmem, ⟨mem_keys_of_mem hmem, hlt⟩, fun x ⟨hx, hkx⟩ => ?_⟩
  obtain ⟨w, hw⟩ := Option.ne_none_iff_exists'.mp hx
  rw [find?_eq_some] at hw
  obtain ⟨-, before, after, hsplit, hbefore⟩ := List.find?_eq_some_iff_append.mp h
  rw [hsplit, List.mem_append, List.mem_cons] at hw
  rcases hw with hw | hw | hw
  · have := hbefore _ hw
    simp only [Bool.not_eq_eq_eq_not, Bool.not_true, decide_eq_false_iff_not] at this
    exact absurd hkx this
  · exact (Prod.mk.inj hw).1.ge
  · have hp := m.ordered
    rw [hsplit, List.pairwise_append, List.pairwise_cons] at hp
    exact (hp.2.1.1 _ hw).le

theorem upperBound?_eq_none : m.upperBound? k = none ↔ ∀ x ∈ m.keys, x ≤ k := by
  rw [upperBound?, List.find?_eq_none]
  constructor
  · intro h x hx
    obtain ⟨w, hw⟩ := Option.ne_none_iff_exists'.mp hx
    simpa using h _ (find?_eq_some.mp hw)
  · intro h e he
    simpa using h _ (mem_keys_of_mem he)

/-! ## How far a walk has to go -/

/-- The number of keys past `k`. -/
def beyond (m : OrdMap K V) (k : K) : Nat := m.entries.countP fun e => decide (k < e.1)

/-- Past a key in the list are the entries after it. -/
theorem beyond_of_split {before after : List (K × V)}
    (h : m.entries = before ++ (k, v) :: after) : m.beyond k = after.length := by
  have hp := m.ordered
  rw [h, List.pairwise_append, List.pairwise_cons] at hp
  have hbefore : before.countP (fun e => decide (k < e.1)) = 0 := by
    rw [List.countP_eq_zero]
    intro e he
    simpa using (hp.2.2 e he (k, v) (by simp)).le
  have hafter : after.countP (fun e => decide (k < e.1)) = after.length := by
    rw [List.countP_eq_length]
    intro e he
    simpa using hp.2.1.1 e he
  rw [beyond, h, List.countP_append, List.countP_cons, hbefore, hafter]
  simp

/-- A step of the walk leaves one key less. -/
theorem beyond_upperBound? (h : m.upperBound? k = some (k', v)) :
    m.beyond k' + 1 = m.beyond k := by
  have hlt : k < k' := by
    rw [upperBound?] at h
    simpa using List.find?_some h
  obtain ⟨-, before, after, hsplit, hbefore⟩ := List.find?_eq_some_iff_append.mp h
  have hp := m.ordered
  rw [hsplit, List.pairwise_append, List.pairwise_cons] at hp
  have hnone : before.countP (fun e => decide (k < e.1)) = 0 := by
    rw [List.countP_eq_zero]
    intro e he
    simpa using hbefore e he
  have hall : after.countP (fun e => decide (k < e.1)) = after.length := by
    rw [List.countP_eq_length]
    intro e he
    simpa using hlt.trans (hp.2.1.1 e he)
  rw [beyond_of_split hsplit, beyond, hsplit, List.countP_append, List.countP_cons, hnone, hall]
  simp [hlt]

/-- So does its first step, from the beginning. -/
theorem beyond_first? (h : m.first? = some (k, v)) : m.beyond k + 1 = m.entries.length := by
  rw [first?] at h
  obtain ⟨rest, hrest⟩ := List.head?_eq_some_iff.mp h
  have hsplit : m.entries = [] ++ (k, v) :: rest := hrest
  rw [beyond_of_split hsplit, hrest, List.length_cons]

theorem beyond_erase_le : (m.erase k').beyond k ≤ m.beyond k :=
  List.Sublist.countP_le List.filter_sublist

theorem length_erase_le : (m.erase k').entries.length ≤ m.entries.length :=
  List.length_filter_le _ _

/-- Storing a value adds one key at most. -/
theorem countP_insert_le (p : K × V → Bool) :
    (m.insert k' v').entries.countP p ≤ m.entries.countP p + 1 := by
  have hsplit := List.countP_eq_countP_filter_add m.entries p fun e => decide (e.1 < k')
  have hrest : (m.entries.filter fun e => decide (k' < e.1)).countP p ≤
      (m.entries.filter fun e => !decide (e.1 < k')).countP p := by
    rw [List.countP_filter, List.countP_filter]
    refine List.countP_mono_left fun e _ he => ?_
    rw [Bool.and_eq_true, decide_eq_true_eq] at he
    simp [he.1, he.2.le]
  show (_ ++ _ :: _ : List (K × V)).countP p ≤ _
  rw [List.countP_append, List.countP_cons]
  split <;> omega

theorem beyond_insert_le : (m.insert k' v').beyond k ≤ m.beyond k + 1 := countP_insert_le _

theorem length_insert_le : (m.insert k' v').entries.length ≤ m.entries.length + 1 := by
  have h : (m.insert k' v').entries.countP (fun _ => true) ≤ m.entries.countP (fun _ => true) + 1 :=
    countP_insert_le _
  simpa using h

end OrdMap
