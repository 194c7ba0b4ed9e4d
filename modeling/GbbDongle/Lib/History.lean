import Mathlib.Data.List.Induction

/-!
# Runs with their history

A machine is given by the moves it can make: the state a move starts in, the
act that caused it, what it emitted, and the state it leaves. A run strings
moves together and keeps all of them, so that a property of a run can speak
about any moment of it, about what was emitted when, and about what has
happened since.

Two rules carry the proofs of a development. `Run.history` is induction over
the moves made so far. `Run.guarded` pays for a state invariant once and hands
it back with every later move. The past-time operator `Since` says that
something happened and that only moves of a given kind followed; `since_snoc`
is all an induction needs to know about it.
-/

namespace History

variable {σ α ε : Type*}

/-- One step of a machine. -/
structure Move (σ α ε : Type*) where
  pre : σ
  act : α
  evs : List ε
  post : σ

/-- The runs of the machine whose moves are those satisfying `R`, from `s`. -/
inductive Run (R : Move σ α ε → Prop) (s : σ) : List (Move σ α ε) → σ → Prop
  | nil : Run R s [] s
  | snoc {es : List (Move σ α ε)} {m : Move σ α ε} :
      Run R s es m.pre → R m → Run R s (es ++ [m]) m.post

variable {R : Move σ α ε → Prop} {s t : σ} {es : List (Move σ α ε)}

/-- Induction over the moves made so far, the run up to each move included. -/
theorem Run.history {H : List (Move σ α ε) → σ → Prop} (h : Run R s es t)
    (h0 : H [] s)
    (hstep : ∀ es m, Run R s es m.pre → H es m.pre → R m → H (es ++ [m]) m.post) :
    H es t := by
  induction h with
  | nil => exact h0
  | snoc hrun hm ih => exact hstep _ _ hrun ih hm

/-- What every move preserves holds at the end of every run. -/
theorem Run.invariant {I : σ → Prop} (h : Run R s es t) (h0 : I s)
    (hstep : ∀ m, R m → I m.pre → I m.post) : I t :=
  h.history (H := fun _ u => I u) h0 fun _ m _ hi hm => hstep m hm hi

/-- A run whose moves all satisfy `Q` keeps whatever `Q`-moves keep. -/
theorem Run.unless {I : σ → Prop} {Q : Move σ α ε → Prop} (h : Run R s es t)
    (hq : ∀ m ∈ es, Q m) (h0 : I s)
    (hstep : ∀ m, R m → Q m → I m.pre → I m.post) : I t := by
  induction h with
  | nil => exact h0
  | snoc hrun hm ih =>
      refine hstep _ hm (hq _ (by simp)) (ih fun m hmem => hq m ?_)
      exact List.mem_append_left _ hmem

/-- What moves keep until one of them is a `Q`-move holds at the end of the run,
or where the first of these begins. -/
theorem Run.until {I : σ → Prop} {Q : Move σ α ε → Prop} (h : Run R s es t) (h0 : I s)
    (hstep : ∀ m ∈ es, R m → ¬ Q m → I m.pre → I m.post) :
    (I t ∧ ∀ m ∈ es, ¬ Q m) ∨
      ∃ before m after, es = before ++ m :: after ∧ Q m ∧ I m.pre ∧ ∀ x ∈ before, ¬ Q x := by
  induction h with
  | nil => exact .inl ⟨h0, by simp⟩
  | @snoc es m _ hm ih =>
      rcases ih fun x hx => hstep x (List.mem_append_left _ hx) with
        ⟨hi, hnone⟩ | ⟨before, x, after, rfl, hfirst⟩
      · by_cases hq : Q m
        · exact .inr ⟨es, m, [], rfl, hq, hi, hnone⟩
        · refine .inl ⟨hstep m (by simp) hm hq hi, fun x hx => ?_⟩
          rcases List.mem_append.mp hx with hx | hx
          · exact hnone x hx
          · rw [List.mem_singleton.mp hx]
            exact hq
      · exact .inr ⟨before, x, after ++ [m], by simp, hfirst⟩

/-- A run may be read under any weaker notion of move. -/
theorem Run.mono {R' : Move σ α ε → Prop} (h : Run R s es t)
    (hR : ∀ m, R m → R' m) : Run R' s es t := by
  induction h with
  | nil => exact .nil
  | snoc _ hm ih => exact .snoc ih (hR _ hm)

/-- A state invariant, once proved, comes for free with every move. -/
theorem Run.guarded {I : σ → Prop} (h : Run R s es t) (h0 : I s)
    (hstep : ∀ m, R m → I m.pre → I m.post) :
    Run (fun m => R m ∧ I m.pre ∧ I m.post) s es t := by
  induction h with
  | nil => exact .nil
  | snoc hrun hm ih =>
      have hi := hrun.invariant h0 hstep
      exact .snoc ih ⟨hm, hi, hstep _ hm hi⟩

/-- Every move of a run is a move of the machine. -/
theorem Run.mem (h : Run R s es t) {m : Move σ α ε} (hm : m ∈ es) : R m := by
  induction h with
  | nil => cases hm
  | snoc _ hr ih =>
      rcases List.mem_append.mp hm with hm | hm
      · exact ih hm
      · rw [List.mem_singleton] at hm
        exact hm ▸ hr

/-- Only the moves that were made count. -/
theorem Run.of_mem {R' : Move σ α ε → Prop} (h : Run R s es t)
    (hR : ∀ m ∈ es, R' m) : Run R' s es t := by
  induction h with
  | nil => exact .nil
  | snoc _ _ ih => exact .snoc (ih fun m hm => hR m (List.mem_append_left _ hm)) (hR _ (by simp))

theorem Run.append {u : σ} {fs : List (Move σ α ε)} (h : Run R s es t)
    (h' : Run R t fs u) : Run R s (es ++ fs) u := by
  induction h' with
  | nil => rwa [List.append_nil]
  | snoc _ hm ih =>
      rw [← List.append_assoc]
      exact .snoc ih hm

/-- A run can be cut at any point of its history. -/
theorem Run.split {fs : List (Move σ α ε)} (h : Run R s (es ++ fs) t) :
    ∃ u, Run R s es u ∧ Run R u fs t := by
  induction fs using List.reverseRecOn generalizing t with
  | nil => exact ⟨t, by rwa [List.append_nil] at h, .nil⟩
  | append_singleton fs m ih =>
      rw [← List.append_assoc] at h
      generalize hl : (es ++ fs) ++ [m] = l at h
      cases h with
      | nil => simp at hl
      | snoc hrun hm =>
          obtain ⟨rfl, rfl⟩ := List.append_inj' hl rfl |>.imp id List.singleton_inj.mp
          obtain ⟨u, h1, h2⟩ := ih hrun
          exact ⟨u, h1, .snoc h2 hm⟩

/-- The run before, at and after one of its moves. -/
theorem Run.at {m : Move σ α ε} {fs : List (Move σ α ε)}
    (h : Run R s (es ++ m :: fs) t) :
    Run R s es m.pre ∧ R m ∧ Run R m.post fs t := by
  rw [List.append_cons] at h
  obtain ⟨u, h1, h2⟩ := h.split
  generalize hl : es ++ [m] = l at h1
  cases h1 with
  | nil => simp at hl
  | snoc hrun hm =>
      obtain ⟨rfl, rfl⟩ := List.append_inj' hl rfl |>.imp id List.singleton_inj.mp
      exact ⟨hrun, hm, h2⟩

/-! ## Machines that leave no choice

What such a machine does is a function of the acts it is given. -/

variable {f : α → σ → σ × List ε} {acts acts' : List α}

/-- The moves the acts cause. -/
def moves (f : α → σ → σ × List ε) : List α → σ → List (Move σ α ε)
  | [], _ => []
  | a :: acts, s => ⟨s, a, (f a s).2, (f a s).1⟩ :: moves f acts (f a s).1

/-- Where they lead. -/
def after (f : α → σ → σ × List ε) (acts : List α) (s : σ) : σ :=
  acts.foldl (fun s a => (f a s).1) s

theorem after_append : after f (acts ++ acts') s = after f acts' (after f acts s) :=
  List.foldl_append

theorem moves_append :
    moves f (acts ++ acts') s = moves f acts s ++ moves f acts' (after f acts s) := by
  induction acts generalizing s with
  | nil => rfl
  | cons a acts ih => exact congrArg (_ :: ·) ih

theorem moves_run :
    Run (fun m => f m.act m.pre = (m.post, m.evs)) s (moves f acts s) (after f acts s) := by
  induction acts using List.reverseRecOn with
  | nil => exact .nil
  | append_singleton acts a ih =>
      rw [moves_append, after_append]
      exact .snoc (m := ⟨_, a, _, _⟩) ih rfl

/-! ## Since -/

variable {β : Type*} {p q : β → Prop} {l : List β}

/-- `p` happened, and only `q` since. -/
def Since (p q : β → Prop) (l : List β) : Prop :=
  ∃ before x after, l = before ++ x :: after ∧ p x ∧ ∀ y ∈ after, q y

@[simp] theorem since_nil : ¬ Since p q [] := by
  rintro ⟨before, x, after, h, -⟩
  simp at h

/-- The last element either is the happening itself or keeps it standing. -/
@[simp] theorem since_snoc {x : β} :
    Since p q (l ++ [x]) ↔ p x ∨ (Since p q l ∧ q x) := by
  constructor
  · rintro ⟨before, y, after, h, hp, hq⟩
    rcases List.eq_nil_or_concat after with rfl | ⟨after, z, rfl⟩
    · obtain ⟨rfl, hx⟩ := List.append_inj' h rfl
      exact .inl (List.singleton_inj.mp hx ▸ hp)
    · rw [List.concat_eq_append, ← List.cons_append, ← List.append_assoc] at h
      obtain ⟨rfl, hx⟩ := List.append_inj' h rfl
      refine .inr ⟨⟨before, y, after, rfl, hp, fun z hz => hq z ?_⟩, ?_⟩
      · simp [hz]
      · exact List.singleton_inj.mp hx ▸ hq z (by simp)
  · rintro (hp | ⟨⟨before, y, after, rfl, hp, hq⟩, hx⟩)
    · exact ⟨l, x, [], rfl, hp, by simp⟩
    · refine ⟨before, y, after ++ [x], by simp, hp, fun z hz => ?_⟩
      rcases List.mem_append.mp hz with hz | hz
      · exact hq z hz
      · exact List.mem_singleton.mp hz ▸ hx

/-- What stops `Since` and is no happening itself forgets what came before. -/
theorem since_append_cons {x : β} {fs : List β} (hp : ¬ p x) (hq : ¬ q x) (hfs : ∀ y ∈ fs, q y) :
    Since p q (l ++ x :: fs) ↔ ∃ y ∈ fs, p y := by
  induction fs using List.reverseRecOn with
  | nil => simp [since_snoc, hp, hq]
  | append_singleton fs y ih =>
      rw [← List.cons_append, ← List.append_assoc, since_snoc,
        ih fun z hz => hfs z (List.mem_append_left _ hz)]
      simp only [List.mem_append, List.mem_singleton, or_and_right, exists_or, exists_eq_left,
        hfs y (by simp), and_true, or_comm]

/-- What the happening establishes and the later moves keep, holds since. -/
theorem Run.since {A : σ → Prop} {p q : Move σ α ε → Prop} (h : Run R s es t)
    (hs : Since p q es) (hstart : ∀ m, R m → p m → A m.post)
    (hkeep : ∀ m, R m → q m → A m.pre → A m.post) : A t := by
  obtain ⟨before, x, after, rfl, hp, hq⟩ := hs
  obtain ⟨-, hx, hrun⟩ := h.at
  exact hrun.unless hq (hstart x hx hp) hkeep

/-! ## Looking back

A check that needs of the past only what can be carried along makes one pass. -/

variable {γ : Type*} {next : γ → β → γ} {check : γ → β → Bool}

/-- Every element passes the check against what is carried to it. -/
def along (next : γ → β → γ) (check : γ → β → Bool) : γ → List β → Bool
  | _, [] => true
  | c, x :: l => check c x && along next check (next c x) l

theorem along_iff {f : List β → γ} (hf : ∀ l x, f (l ++ [x]) = next (f l) x)
    {l₀ : List β} : along next check (f l₀) l = true ↔
      ∀ before x after, l = before ++ x :: after → check (f (l₀ ++ before)) x = true := by
  induction l generalizing l₀ with
  | nil => simp [along]
  | cons y l ih =>
      rw [along, Bool.and_eq_true, ← hf, ih]
      constructor
      · rintro ⟨hy, hrest⟩ before x after heq
        cases before with
        | nil =>
            obtain ⟨rfl, -⟩ := List.cons.inj heq
            rwa [List.append_nil]
        | cons z before =>
            obtain ⟨rfl, hl⟩ := List.cons.inj heq
            rw [List.append_cons]
            exact hrest before x after hl
      · intro hall
        refine ⟨?_, fun before x after heq => ?_⟩
        · have hy := hall [] y l rfl
          rwa [List.append_nil] at hy
        · rw [← List.append_cons]
          refine hall (y :: before) x after ?_
          rw [heq, List.cons_append]

end History
