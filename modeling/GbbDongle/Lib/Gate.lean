import GbbDongle.Lib.History

/-!
# A gate whose waiters keep an old key

A channel that has been closed lets everybody pass, for good; to shut such a
gate a new channel is put in its place. Whoever wants to pass looks the channel
up once and then waits for that one, which may be an old one by then. So a
waiter need not find the gate open when it passes. What it can rely on is that
the gate was open at some moment since it looked (`opened_of_passes`), and that
an open gate lets in everybody who waits, whichever channel they hold
(`passes_of_open`).
-/

namespace Waiting

open History

variable {σ α ε : Type*}

/-- The channels that the gate has had, the latest of which may be closed. -/
structure Gate where
  generation : Nat
  isOpen : Bool
deriving DecidableEq

/-- Whether who looked up this channel gets through. -/
def Gate.passes (g : Gate) (n : Nat) : Bool :=
  decide (n < g.generation) || (n == g.generation && g.isOpen)

variable {g g' : Gate} {n : Nat}

theorem passes_current : g.passes g.generation = g.isOpen := by
  simp [Gate.passes]

theorem passes_of_open (h : g.isOpen = true) (hn : n ≤ g.generation) : g.passes n = true := by
  rcases Nat.lt_or_eq_of_le hn with hlt | heq
  · simp [Gate.passes, hlt]
  · simp [Gate.passes, heq, h]

/-- What may happen to a gate: it is opened where it is shut, and where it is
open it gets a new channel. -/
inductive Next (g : Gate) : Gate → Prop
  | same : Next g g
  | raised : g.isOpen = false → Next g ⟨g.generation, true⟩
  | shut : g.isOpen = true → Next g ⟨g.generation + 1, false⟩

theorem Next.generation_le (h : Next g g') : g.generation ≤ g'.generation := by
  cases h with
  | same => exact Nat.le_refl _
  | raised => exact Nat.le_refl _
  | shut => exact Nat.le_succ _

/-- Who may pass still may. -/
theorem Next.passes (h : Next g g') (hn : g.passes n = true) : g'.passes n = true := by
  cases h with
  | same => exact hn
  | raised hopen =>
      simp only [Gate.passes, hopen, Bool.and_false, Bool.or_false, decide_eq_true_eq] at hn
      simp [Gate.passes, hn]
  | shut =>
      simp only [Gate.passes, Bool.or_eq_true, decide_eq_true_eq, Bool.and_eq_true,
        beq_iff_eq] at hn
      have hlt : n < g.generation + 1 := by
        rcases hn with hn | ⟨hn, -⟩ <;> omega
      simp [Gate.passes, hlt]

/-- Whoever passes has had the gate open since it looked. -/
theorem opened_of_passes (gate : σ → Gate) {R : Move σ α ε → Prop} {s t : σ}
    {es : List (Move σ α ε)} (hnext : ∀ m, R m → Next (gate m.pre) (gate m.post))
    (h : Run R s es t) (hpasses : (gate t).passes (gate s).generation = true) :
    (gate s).isOpen = true ∨ ∃ m ∈ es, (gate m.post).isOpen = true := by
  have hall : (gate s).generation ≤ (gate t).generation ∧
      ((gate t).passes (gate s).generation = true →
        (gate s).isOpen = true ∨ ∃ m ∈ es, (gate m.post).isOpen = true) := by
    refine h.history (H := fun es u => (gate s).generation ≤ (gate u).generation ∧
      ((gate u).passes (gate s).generation = true →
        (gate s).isOpen = true ∨ ∃ m ∈ es, (gate m.post).isOpen = true)) ?_ ?_
    · refine ⟨Nat.le_refl _, fun hp => .inl ?_⟩
      rwa [passes_current] at hp
    · intro es m _ ⟨hle, ih⟩ hm
      refine ⟨Nat.le_trans hle (hnext m hm).generation_le, fun hp => ?_⟩
      by_cases hpre : (gate m.pre).passes (gate s).generation = true
      · rcases ih hpre with hopen | ⟨x, hx, hopen⟩
        · exact .inl hopen
        · exact .inr ⟨x, List.mem_append_left _ hx, hopen⟩
      · -- it could not pass before this move, so the move opened the gate
        refine .inr ⟨m, by simp, ?_⟩
        have hcase := hnext m hm
        generalize gate m.post = g' at hcase hp ⊢
        cases hcase with
        | same => exact absurd hp hpre
        | raised => rfl
        | shut hopen => exact absurd (passes_of_open hopen hle) hpre
  exact hall.2 hpasses

end Waiting
