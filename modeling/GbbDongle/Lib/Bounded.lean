import Mathlib.Data.List.Basic

/-!
# Checked indexing

A program that indexes without looking is modelled by one that looks: it runs
in `Option`, an access past the end is `none`, and that the program is safe is
that the checked run comes to `some`. `xs[i]?` is the access itself; here are
the demands a program makes of its numbers and the index loops over a vector,
each with the rule that carries a proof through it.
-/

namespace Bounded

universe u

variable {α β : Type u}

/-- Go on only if `p` holds. -/
def require (p : Prop) [Decidable p] : Option Unit := if p then some () else none

@[simp] theorem require_of {p : Prop} [Decidable p] (h : p) : require p = some () := if_pos h

/-- `xs[i] = f(xs[i])`. -/
def writeAt (f : α → α) (i : Nat) (xs : List α) : Option (List α) := do
  let x ← xs[i]?
  some (xs.set i (f x))

theorem writeAt_eq {f : α → α} {i : Nat} {xs : List α} (h : i < xs.length) :
    writeAt f i xs = some (xs.modify i f) := by
  rw [writeAt, List.getElem?_eq_getElem h, List.modify_eq_set_getElem?,
    List.getElem?_eq_getElem h]
  rfl

/-- `for (j = i; j < i + n; j++)`, reading `xs[j]` in turn `j`. -/
def readLoop (xs : List α) (turn : Nat → α → β → Option β) : Nat → Nat → β → Option β
  | 0, _, b => some b
  | n + 1, i, b => do
      let x ← xs[i]?
      let b ← turn i x b
      readLoop xs turn n (i + 1) b

/-- A loop that stays below the length comes to an end, in a state its
invariant describes. -/
theorem readLoop_inv {xs : List α} {turn : Nat → α → β → Option β} {I : Nat → β → Prop}
    {n i : Nat} {b : β} (hlen : i + n ≤ xs.length) (h0 : I i b)
    (hturn : ∀ j x b, j < i + n → xs[j]? = some x → I j b →
      ∃ b', turn j x b = some b' ∧ I (j + 1) b') :
    ∃ b', readLoop xs turn n i b = some b' ∧ I (i + n) b' := by
  induction n generalizing i b with
  | zero => exact ⟨b, rfl, h0⟩
  | succ n ih =>
      have hi : i < xs.length := by omega
      have hx := List.getElem?_eq_getElem hi
      obtain ⟨b₁, ht, h1⟩ := hturn i xs[i] b (by omega) hx h0
      have hrest : i + 1 + n = i + (n + 1) := by omega
      obtain ⟨b₂, hl, h2⟩ := ih (hrest ▸ hlen) h1 fun j x b hj => hturn j x b (hrest ▸ hj)
      refine ⟨b₂, ?_, hrest ▸ h2⟩
      rw [readLoop, hx, Option.bind_eq_bind, Option.bind_some, ht, Option.bind_eq_bind,
        Option.bind_some, hl]

/-- A loop from the start whose turns each add one element computes what the
elements read so far determine. -/
theorem readLoop_take {xs : List α} {turn : Nat → α → β → Option β} {g : List α → β} {n : Nat}
    (hlen : n ≤ xs.length)
    (hturn : ∀ j x, turn j x (g (xs.take j)) = some (g (xs.take j ++ [x]))) :
    readLoop xs turn n 0 (g []) = some (g (xs.take n)) := by
  have h : ∃ b, readLoop xs turn n 0 (g []) = some b ∧ b = g (xs.take (0 + n)) := by
    refine readLoop_inv (I := fun j b => b = g (xs.take j)) (by omega) (by rw [List.take_zero]) ?_
    intro j x b _ hx hb
    refine ⟨_, by rw [hb]; exact hturn j x, ?_⟩
    rw [List.take_add_one, hx, Option.toList_some]
  obtain ⟨b, hb, rfl⟩ := h
  rw [hb, Nat.zero_add]

/-! ## Writing -/

theorem take_modify_self (f : α → α) (i : Nat) (xs : List α) :
    (xs.modify i f).take i = xs.take i := by
  rw [List.take_modify, List.modify_eq_self]
  rw [List.length_take]
  omega

theorem drop_modify_self (f : α → α) {i : Nat} {xs : List α} (h : i < xs.length) :
    (xs.modify i f).drop i = f xs[i] :: xs.drop (i + 1) := by
  rw [List.drop_modify_of_ge _ _ _ _ (Nat.le_refl i), Nat.sub_self, List.drop_eq_getElem_cons h]
  rfl

/-- `for (j = i; j < i + n; j++) xs[j] = f(xs[j])`. -/
def writeLoop (f : α → α) : Nat → Nat → List α → Option (List α)
  | 0, _, xs => some xs
  | n + 1, i, xs => do
      let xs ← writeAt f i xs
      writeLoop f n (i + 1) xs

/-- Run to the end of the vector, it has changed everything from `i` on. -/
theorem writeLoop_eq {f : α → α} {n i : Nat} {xs : List α} (hlen : i + n = xs.length) :
    writeLoop f n i xs = some (xs.take i ++ (xs.drop i).map f) := by
  induction n generalizing i xs with
  | zero =>
      have hi : i = xs.length := by omega
      rw [writeLoop, hi, List.take_length, List.drop_length, List.map_nil, List.append_nil]
  | succ n ih =>
      have hi : i < xs.length := by omega
      have hi' : i < (xs.modify i f).length := by
        rw [List.length_modify]
        omega
      have htake : (xs.modify i f).take (i + 1) = xs.take i ++ [f xs[i]] := by
        rw [List.take_add_one, take_modify_self, List.getElem?_eq_getElem hi',
          List.getElem_modify_eq, Option.toList_some]
      rw [writeLoop, writeAt_eq hi, Option.bind_eq_bind, Option.bind_some,
        ih (by rw [List.length_modify]; omega), htake,
        List.drop_modify_of_lt _ _ _ _ (Nat.lt_succ_self i), List.drop_eq_getElem_cons hi,
        List.map_cons, List.append_assoc]
      rfl

/-- `xs[i] = f(xs[i])`, and then `g` over everything from `i` on. -/
theorem writeAt_writeLoop {f g : α → α} {i : Nat} {xs : List α} (h : i < xs.length) :
    (do
      let xs ← writeAt f i xs
      writeLoop g (xs.length - i) i xs) =
    some (xs.take i ++ g (f xs[i]) :: (xs.drop (i + 1)).map g) := by
  have hlen : i + ((xs.modify i f).length - i) = (xs.modify i f).length := by
    rw [List.length_modify]
    omega
  rw [writeAt_eq h, Option.bind_eq_bind, Option.bind_some, writeLoop_eq hlen, take_modify_self,
    drop_modify_self f h, List.map_cons]

end Bounded
