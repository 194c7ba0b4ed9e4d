import Mathlib.Data.List.Forall2
import Mathlib.Data.List.Induction

/-!
# A place that holds one thing

Things are put into a place that has room for one, and taken out again; what
is taken may be something that became of what was put, so the two are related
by `R` and not by equality. Where `overwrite` is allowed a thing may be put on
top of another, which is then gone.

The history of such a place is the list of what was put and taken, in order.
`taken` and `fate` read it backwards and forwards: what is taken was put just
before, and what is put is either taken next, or overwritten next, or still
there. Over a whole history the things taken come from the things put in their
order (`sublist`), and where nothing is overwritten none is lost (`conserved`).
-/

namespace Mailbox

inductive Op (α β : Type*)
  | put (a : α)
  | take (b : β)

variable {α β : Type*} {R : α → β → Prop} {overwrite : Bool} {l l' : List (Op α β)} {a : α} {b : β}

def Op.put? : Op α β → Option α
  | .put a => some a
  | .take _ => none

def Op.take? : Op α β → Option β
  | .put _ => none
  | .take b => some b

/-- What was put, in order. -/
def puts (l : List (Op α β)) : List α := l.filterMap Op.put?

/-- What was taken, in order. -/
def takes (l : List (Op α β)) : List β := l.filterMap Op.take?

/-- What is there after `l`. -/
def slot (l : List (Op α β)) : Option α := l.getLast?.bind Op.put?

@[simp] theorem slot_put : slot (l ++ [.put a]) = some a := by
  rw [slot, List.getLast?_concat]
  rfl

@[simp] theorem slot_take : slot (l ++ [.take b]) = none := by
  rw [slot, List.getLast?_concat]
  rfl

theorem slot_eq_some (h : slot l = some a) : ∃ before, l = before ++ [.put a] := by
  rcases List.eq_nil_or_concat l with rfl | ⟨before, x, rfl⟩
  · cases h
  · rw [List.concat_eq_append] at h ⊢
    cases x with
    | put a' =>
        rw [slot_put] at h
        exact ⟨before, by rw [Option.some.inj h]⟩
    | take b =>
        rw [slot_take] at h
        cases h

@[simp] theorem puts_append : puts (l ++ l') = puts l ++ puts l' := List.filterMap_append

@[simp] theorem takes_append : takes (l ++ l') = takes l ++ takes l' := List.filterMap_append

@[simp] theorem puts_put : puts [(.put a : Op α β)] = [a] := rfl

@[simp] theorem puts_take : puts [(.take b : Op α β)] = [] := rfl

@[simp] theorem takes_put : takes [(.put a : Op α β)] = [] := rfl

@[simp] theorem takes_take : takes [(.take b : Op α β)] = [b] := rfl

@[simp] theorem puts_map_put (as : List α) : puts (as.map (.put : α → Op α β)) = as := by
  induction as with
  | nil => rfl
  | cons a as ih => exact congrArg (a :: ·) ih

@[simp] theorem puts_map_take (bs : List β) : puts (bs.map (.take : β → Op α β)) = [] := by
  induction bs with
  | nil => rfl
  | cons b bs ih => exact ih

@[simp] theorem takes_map_put (as : List α) : takes (as.map (.put : α → Op α β)) = [] := by
  induction as with
  | nil => rfl
  | cons a as ih => exact ih

@[simp] theorem takes_map_take (bs : List β) : takes (bs.map (.take : β → Op α β)) = bs := by
  induction bs with
  | nil => rfl
  | cons b bs ih => exact congrArg (b :: ·) ih

/-- The move the place allows after `l`. -/
def Fits (R : α → β → Prop) (overwrite : Bool) (l : List (Op α β)) : Op α β → Prop
  | .put _ => overwrite = true ∨ slot l = none
  | .take b => ∃ a, slot l = some a ∧ R a b

/-- The histories of the place. -/
inductive Lawful (R : α → β → Prop) (overwrite : Bool) : List (Op α β) → Prop
  | nil : Lawful R overwrite []
  | snoc {l : List (Op α β)} {x : Op α β} : Lawful R overwrite l → Fits R overwrite l x →
      Lawful R overwrite (l ++ [x])

theorem Lawful.last {x : Op α β} (h : Lawful R overwrite (l ++ [x])) :
    Lawful R overwrite l ∧ Fits R overwrite l x := by
  generalize hl : l ++ [x] = k at h
  cases h with
  | nil => simp at hl
  | snoc hk hfits =>
      obtain ⟨rfl, hx⟩ := List.append_inj' hl rfl
      obtain rfl := List.singleton_inj.mp hx
      exact ⟨hk, hfits⟩

theorem Lawful.left (h : Lawful R overwrite (l ++ l')) : Lawful R overwrite l := by
  induction l' using List.reverseRecOn with
  | nil => rwa [List.append_nil] at h
  | append_singleton l' x ih =>
      rw [← List.append_assoc] at h
      exact ih h.last.1

/-- What is taken was put just before. -/
theorem Lawful.taken (h : Lawful R overwrite (l ++ .take b :: l')) :
    ∃ before a, l = before ++ [.put a] ∧ R a b := by
  rw [List.append_cons] at h
  obtain ⟨a, hs, hr⟩ := h.left.last.2
  obtain ⟨before, rfl⟩ := slot_eq_some hs
  exact ⟨before, a, rfl, hr⟩

/-- What is put is still there, or taken next, or overwritten next. -/
theorem Lawful.fate (h : Lawful R overwrite (l ++ .put a :: l')) :
    l' = [] ∨ (∃ b after, l' = .take b :: after ∧ R a b) ∨
      (overwrite = true ∧ ∃ newer after, l' = .put newer :: after) := by
  cases l' with
  | nil => exact .inl rfl
  | cons x after =>
      rw [show l ++ .put a :: x :: after = ((l ++ [.put a]) ++ [x]) ++ after by simp] at h
      have hx := h.left.last.2
      cases x with
      | put newer =>
          rw [Fits, slot_put] at hx
          exact .inr (.inr ⟨hx.resolve_right nofun, newer, after, rfl⟩)
      | take b =>
          obtain ⟨a', hs, hr⟩ := hx
          rw [slot_put] at hs
          obtain rfl := Option.some.inj hs
          exact .inr (.inl ⟨b, after, rfl, hr⟩)

/-- What is taken comes from what was put, in order. -/
theorem Lawful.sublist (h : Lawful R overwrite l) :
    ∃ done, List.Forall₂ R done (takes l) ∧ (done ++ (slot l).toList).Sublist (puts l) := by
  induction h with
  | nil => exact ⟨[], .nil, List.Sublist.refl _⟩
  | @snoc l x _ hfits ih =>
      obtain ⟨done, hdone, hsub⟩ := ih
      cases x with
      | put a =>
          refine ⟨done, by simpa using hdone, ?_⟩
          rw [slot_put, puts_append]
          exact ((List.sublist_append_left done _).trans hsub).append (List.Sublist.refl [a])
      | take b =>
          obtain ⟨a, hs, hr⟩ := hfits
          rw [hs] at hsub
          refine ⟨done ++ [a], ?_, by simpa using hsub⟩
          rw [takes_append]
          exact List.rel_append hdone (.cons hr .nil)

/-- Where nothing is overwritten, what was put has been taken or is there. -/
theorem Lawful.conserved (h : Lawful R false l) :
    ∃ done, puts l = done ++ (slot l).toList ∧ List.Forall₂ R done (takes l) := by
  induction h with
  | nil => exact ⟨[], rfl, .nil⟩
  | @snoc l x _ hfits ih =>
      obtain ⟨done, hputs, hdone⟩ := ih
      cases x with
      | put a =>
          rw [hfits.resolve_left Bool.false_ne_true] at hputs
          refine ⟨done, ?_, by simpa using hdone⟩
          rw [slot_put, puts_append, hputs]
          simp
      | take b =>
          obtain ⟨a, hs, hr⟩ := hfits
          rw [hs] at hputs
          refine ⟨done ++ [a], by simpa using hputs, ?_⟩
          rw [takes_append]
          exact List.rel_append hdone (.cons hr .nil)

end Mailbox
