import Mathlib.Data.List.DropRight
import Mathlib.Data.Nat.ModEq

/-!
# A buffer of the newest items of a stream

Items of a stream are written one after another into a buffer of fixed size,
item `j` at index `j % size`, lap after lap. `Holds` says what is left of the
stream in the buffer at any time: the last `size` items, each in its own cell.
Writing keeps it (`Holds.snoc`), because two items less than a lap apart never
share a cell, and a reader who stays within the last lap gets the stream
(`Holds.newest`).
-/

namespace Ring

variable {α : Type*} {cells stream : List α}

/-- The cells hold the newest items of the stream, item `j` at `j % size`. -/
def Holds (cells stream : List α) : Prop :=
  ∀ j, j < stream.length → stream.length ≤ j + cells.length →
    cells[j % cells.length]? = stream[j]?

theorem Holds.nil : Holds cells [] := by
  intro j hj
  exact absurd hj (Nat.not_lt_zero j)

/-- Two items less than a lap apart have different cells. -/
theorem index_ne {i j n : Nat} (hlt : i < j) (hlap : j < i + n) : j % n ≠ i % n := by
  intro h
  have hdvd : n ∣ j - i := (Nat.modEq_iff_dvd' (Nat.le_of_lt hlt)).mp h.symm
  have := Nat.le_of_dvd (by omega) hdvd
  omega

/-- The next item of the stream goes to the next cell. -/
theorem Holds.snoc (h : Holds cells stream) (x : α) :
    Holds (cells.set (stream.length % cells.length) x) (stream ++ [x]) := by
  intro j hj hlap
  rw [List.length_set] at hlap ⊢
  rw [List.length_append, List.length_singleton] at hj hlap
  by_cases hlast : j = stream.length
  · subst hlast
    have hin : stream.length % cells.length < cells.length := Nat.mod_lt _ (by omega)
    rw [List.getElem?_set_self hin, List.getElem?_concat_length]
  · have hold : j < stream.length := by omega
    rw [List.getElem?_set_ne (index_ne hold (by omega)), List.getElem?_append_left hold]
    exact h j hold (by omega)

/-- The newest items are all among the later ones when there are enough of these. -/
theorem rtake_append_of_le {old fresh : List α} {k : Nat} (hk : k ≤ fresh.length) :
    (old ++ fresh).rtake k = fresh.rtake k := by
  rw [List.rtake_eq_reverse_take_reverse, List.rtake_eq_reverse_take_reverse,
    List.reverse_append, List.take_append_of_le_length (by rwa [List.length_reverse])]

/-- Reading the newest `k` items, at most a lap of them, gives just these. -/
theorem Holds.newest (h : Holds cells stream) {k : Nat} (hk : k ≤ stream.length)
    (hlap : k ≤ cells.length) (fallback : α) :
    (List.range k).map (fun i =>
      cells.getD ((stream.length - k + i) % cells.length) fallback) = stream.rtake k := by
  apply List.ext_getElem
  · rw [List.length_map, List.length_range, List.rtake, List.length_drop]
    omega
  · intro i hi _
    rw [List.length_map, List.length_range] at hi
    have hin : stream.length - k + i < stream.length := by omega
    simp only [List.getElem_map, List.getElem_range, List.rtake, List.getElem_drop]
    rw [List.getD_eq_getElem?_getD, h _ hin (by omega), List.getElem?_eq_getElem hin,
      Option.getD_some]

end Ring
