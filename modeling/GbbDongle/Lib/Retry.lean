import Mathlib.Logic.Basic

/-!
# Retried attempts

A request is sent again as long as its attempts fail in a way that may pass,
and nobody has called it off in the meantime. What the attempts would come to
is given for all of them; `Meets` picks out what happens: one of the attempts
that are really made has the property in question. A retry loop proves its
facts by `meets_zero` and `meets_succ`, in step with its own recursion.
-/

namespace Retry

variable {α : Type*} {again : α → Prop} {stop : Nat → Prop} {attempt : Nat → α} {p q : α → Prop}
  {left k : Nat}

/-- Of at most `left` attempts from the `k`th on, one that is made satisfies
`p`: those before it were worth another, and none was called off after. -/
def Meets (again : α → Prop) (stop : Nat → Prop) (attempt : Nat → α) (p : α → Prop)
    (left k : Nat) : Prop :=
  ∃ n < left, (∀ i < n, again (attempt (k + i)) ∧ ¬ stop (k + i + 1)) ∧ p (attempt (k + n))

theorem meets_zero : ¬ Meets again stop attempt p 0 k := by
  intro ⟨n, hn, _⟩
  exact absurd hn (Nat.not_lt_zero n)

/-- The first of them has it, or is worth another that is not called off. -/
theorem meets_succ :
    Meets again stop attempt p (left + 1) k ↔
      p (attempt k) ∨
        (again (attempt k) ∧ ¬ stop (k + 1) ∧ Meets again stop attempt p left (k + 1)) := by
  constructor
  · intro ⟨n, hn, hbefore, hp⟩
    cases n with
    | zero => exact .inl hp
    | succ n =>
        obtain ⟨hagain, hstop⟩ := hbefore 0 (Nat.succ_pos n)
        refine .inr ⟨hagain, hstop, n, by omega, ?_, ?_⟩
        · intro i hi
          have h := hbefore (i + 1) (by omega)
          rwa [show k + (i + 1) = k + 1 + i by omega] at h
        · rwa [show k + (n + 1) = k + 1 + n by omega] at hp
  · intro h
    rcases h with hp | ⟨hagain, hstop, n, hn, hbefore, hp⟩
    · exact ⟨0, Nat.succ_pos left, fun i hi => absurd hi (Nat.not_lt_zero i), hp⟩
    · refine ⟨n + 1, by omega, ?_, ?_⟩
      · intro i hi
        cases i with
        | zero => exact ⟨hagain, hstop⟩
        | succ i =>
            have h := hbefore i (by omega)
            rwa [show k + (i + 1) = k + 1 + i by omega]
      · rwa [show k + (n + 1) = k + 1 + n by omega]

theorem Meets.mono (h : Meets again stop attempt p left k) (hpq : ∀ a, p a → q a) :
    Meets again stop attempt q left k := by
  obtain ⟨n, hn, hbefore, hp⟩ := h
  exact ⟨n, hn, hbefore, hpq _ hp⟩

/-- An attempt that is not worth another is the last one made. -/
theorem meets_settled (h : ¬ again (attempt k)) :
    Meets again stop attempt p (left + 1) k ↔ p (attempt k) := by
  rw [meets_succ]
  simp only [h, false_and, or_false]

end Retry
