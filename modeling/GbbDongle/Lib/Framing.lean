import Mathlib.Data.List.Induction

/-!
# Frames that announce their length

A receiver collects what a line delivers, in portions it does not choose, and
asks after each portion whether a frame is complete. `cut` is its answer: the
length is read off what has been collected, and once that much is there the
frame is the beginning of it.

When an announcement stands once it is made and is made inside the frame, the
answer is a function of the stream and not of its portions: nothing is cut
before the portion that completes the frame, and with it exactly the frame,
whatever else that portion brought.
-/

namespace Framing

variable {α β : Type*} {len : List α → Option Nat} {heard more frame : List α} {n : Nat}

/-- The complete frame at the beginning of what was heard. -/
def cut (len : List α → Option Nat) (heard : List α) : Option (List α) :=
  match len heard with
  | some n => if n ≤ heard.length then some (heard.take n) else none
  | none => none

/-- A length that no later byte changes, announced within the frame. -/
structure Delimits (len : List α → Option Nat) : Prop where
  stable {heard : List α} {n : Nat} (more : List α) :
    len heard = some n → len (heard ++ more) = some n
  inside {heard : List α} {n : Nat} :
    len heard = some n → n ≤ heard.length → len (heard.take n) = some n

theorem cut_eq (hn : len heard = some n) :
    cut len heard = if n ≤ heard.length then some (heard.take n) else none := by
  rw [cut, hn]

/-- A stream that announces `n` is cut at `n`, and not before, by whoever has
heard a part of it. -/
theorem Delimits.cut_part (h : Delimits len) (hn : len (heard ++ more) = some n) :
    cut len heard = if n ≤ heard.length then some ((heard ++ more).take n) else none := by
  by_cases hle : n ≤ heard.length
  · have htake : (heard ++ more).take n = heard.take n := List.take_append_of_le_length hle
    have hlen : len (heard.take n) = some n := by
      rw [← htake]
      exact h.inside hn (by rw [List.length_append]; omega)
    have hhere : len heard = some n := by
      have hs := h.stable (heard.drop n) hlen
      rwa [List.take_append_drop] at hs
    rw [cut_eq hhere, htake]
  · rw [if_neg hle, cut]
    split
    · next m hm =>
        have hm' := h.stable more hm
        rw [hn, Option.some.injEq] at hm'
        rw [if_neg (by omega)]
    · rfl

/-- Among portions that bring enough there is a first by which it is enough. -/
theorem exists_completing (bring : β → List α) (portions : List β) (hpos : 0 < n)
    (hle : n ≤ (portions.flatMap bring).length) :
    ∃ before last later, portions = before ++ last :: later ∧
      (before.flatMap bring).length < n ∧
      n ≤ (before.flatMap bring ++ bring last).length := by
  induction portions using List.reverseRecOn with
  | nil =>
      rw [List.flatMap_nil, List.length_nil] at hle
      omega
  | append_singleton portions p ih =>
      by_cases hp : n ≤ (portions.flatMap bring).length
      · obtain ⟨before, last, later, rfl, hlt, hfull⟩ := ih hp
        exact ⟨before, last, later ++ [p], by simp, hlt, hfull⟩
      · refine ⟨portions, p, [], rfl, by omega, ?_⟩
        rwa [List.flatMap_append, List.flatMap_singleton] at hle

end Framing
