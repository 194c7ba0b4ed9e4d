import Mathlib.Data.List.Sort
import Mathlib.Order.Bounds.Basic
import Mathlib.Order.Interval.Set.Defs

/-!
# A cursor over a set that changes

An iteration that remembers only the keys it has visited, and always goes on to
the least key ahead of them, can be left standing while the set under it gains
and loses members. Nothing is promised to a key that comes or goes. A key that
stays is met exactly once, and the visits come in increasing order whatever
happens to the set.
-/

namespace Cursor

variable {K : Type*} [LinearOrder K] {kept kept' stored : Set K} {visited : List K} {k : K}

/-- The keys past everything visited so far. -/
def ahead (visited : List K) : Set K := {x | ∀ v ∈ visited, v < x}

/-- The account of a walk under which the keys in `kept` have not moved. -/
structure Walk (kept : Set K) (visited : List K) : Prop where
  increasing : visited.Pairwise (· < ·)
  covers : ∀ k ∈ kept, k ∉ ahead visited → k ∈ visited

theorem Walk.nil : Walk kept [] :=
  ⟨.nil, fun _ _ h => absurd (fun _ hv => absurd hv List.not_mem_nil) h⟩

theorem Walk.anti (h : Walk kept visited) (hsub : kept' ⊆ kept) : Walk kept' visited :=
  ⟨h.increasing, fun k hk => h.covers k (hsub hk)⟩

/-- A visit to the least key ahead. What is skipped was not there to be kept. -/
theorem Walk.visit (h : Walk kept visited) (hsub : kept ⊆ stored)
    (hk : IsLeast (stored ∩ ahead visited) k) : Walk kept (visited ++ [k]) := by
  refine ⟨List.pairwise_append.mpr ⟨h.increasing, List.pairwise_singleton _ _, ?_⟩, ?_⟩
  · intro v hv x hx
    rw [List.mem_singleton] at hx
    exact hx ▸ hk.1.2 v hv
  · intro x hx hnot
    by_cases hahead : x ∈ ahead visited
    · have hkx : k ≤ x := hk.2 ⟨hsub hx, hahead⟩
      have hxk : ¬ k < x := by
        intro hlt
        refine hnot fun v hv => ?_
        rcases List.mem_append.mp hv with hv | hv
        · exact hahead v hv
        · rw [List.mem_singleton] at hv
          exact hv ▸ hlt
      rw [le_antisymm hkx (not_lt.mp hxk)]
      simp
    · exact List.mem_append_left _ (h.covers x hx hahead)

/-- The last visit decides what is ahead. -/
theorem Walk.mem_ahead (h : Walk kept (visited ++ [k])) {x : K} :
    x ∈ ahead (visited ++ [k]) ↔ k < x := by
  constructor
  · exact fun hx => hx k (by simp)
  · intro hx v hv
    rcases List.mem_append.mp hv with hv | hv
    · exact lt_trans ((List.pairwise_append.mp h.increasing).2.2 v hv k (by simp)) hx
    · rw [List.mem_singleton] at hv
      exact hv ▸ hx

/-- A walk that stops with nothing ahead has met every kept key once. -/
theorem Walk.finish [BEq K] [LawfulBEq K] (h : Walk kept visited)
    (hend : ∀ x ∈ kept, x ∉ ahead visited) (hk : k ∈ kept) :
    visited.count k = 1 := by
  have hnodup : visited.Nodup := h.increasing.imp fun hlt => ne_of_lt hlt
  exact List.count_eq_one_of_mem hnodup (h.covers k hk (hend k hk))

end Cursor
