import GbbDongle.Lib.History
import GbbDongle.Lib.Wrap
import Mathlib.Data.List.Chain

/-!
# A timer that is polled

A loop looks at a wrapping clock each time round, and when the time since a
stamp has reached the interval it takes a new stamp and does its work. Two
things are expected of this. It must not work too often: any two stamps are at
least the interval apart in real time, whatever the loop does and however often
the clock has wrapped between them (`firings_spaced`). And it must not be late:
while the looks come often enough, it works within one interval and the time
between two looks (`quiet_lt`). For the second the looks must not miss the
window in which the wrapped difference is large enough, which is the only thing
that the length of the word has to do with it.
-/

namespace Polling

open History Wrap

variable {σ α ε : Type*}

/-- A timer of a machine: its interval, its stamp, the moves that look at it
and the real times at which they do. -/
structure Timer (σ α ε : Type*) where
  interval : UInt32
  stamp : σ → UInt32
  clock : σ → Nat
  look : Move σ α ε → Option Nat

/-- The look of this move finds that the interval has gone by. -/
def Timer.firing (T : Timer σ α ε) (m : Move σ α ε) : Option Nat :=
  (T.look m).filter fun t => elapsed (millis t) (T.stamp m.pre) T.interval

/-- The move leaves the timer as it should. -/
structure Timer.Obeys (T : Timer σ α ε) (m : Move σ α ε) : Prop where
  clock_le : T.clock m.pre ≤ T.clock m.post
  look_le : ∀ t ∈ T.look m, T.clock m.pre ≤ t ∧ t ≤ T.clock m.post
  stamp_eq : T.stamp m.post = ((T.firing m).map millis).getD (T.stamp m.pre)

/-- The times at which it worked. -/
def Timer.firings (T : Timer σ α ε) (es : List (Move σ α ε)) : List Nat := es.filterMap T.firing

def Timer.looks (T : Timer σ α ε) (es : List (Move σ α ε)) : List Nat := es.filterMap T.look

variable {T : Timer σ α ε} {es : List (Move σ α ε)} {m : Move σ α ε} {s u : σ} {t t₀ d : Nat}

theorem Timer.firing_eq_some (h : T.firing m = some t) :
    T.look m = some t ∧ elapsed (millis t) (T.stamp m.pre) T.interval = true :=
  Option.filter_eq_some_iff.mp h

theorem Timer.firings_snoc :
    T.firings (es ++ [m]) = T.firings es ++ (T.firing m).toList := by
  rw [firings, firings, List.filterMap_append]
  cases h : T.firing m with
  | none => rw [List.filterMap_cons_none h]; rfl
  | some t => rw [List.filterMap_cons_some h]; rfl

theorem Timer.looks_snoc : T.looks (es ++ [m]) = T.looks es ++ (T.look m).toList := by
  rw [looks, looks, List.filterMap_append]
  cases h : T.look m with
  | none => rw [List.filterMap_cons_none h]; rfl
  | some t => rw [List.filterMap_cons_some h]; rfl

/-! ## Not too often -/

/-- A wait that the word says is over is over. -/
theorem add_le_of_elapsed {wait : UInt32} (hle : t₀ ≤ t)
    (h : elapsed (millis t) (millis t₀) wait = true) : t₀ + wait.toNat ≤ t := by
  have hmod := (elapsed_of_le hle).mp h
  have hreal := Nat.mod_le (t - t₀) (2 ^ 32)
  omega

/-- The stamp is the last working time, and it has passed. -/
theorem Timer.stamp_last (h : Run T.Obeys s es u) (h₀ : T.stamp s = millis t₀)
    (hclock : t₀ ≤ T.clock s) :
    ∃ t, (t₀ :: T.firings es).getLast? = some t ∧ T.stamp u = millis t ∧ t ≤ T.clock u := by
  refine h.history (H := fun es u => ∃ t, (t₀ :: T.firings es).getLast? = some t ∧
    T.stamp u = millis t ∧ t ≤ T.clock u) ⟨t₀, rfl, h₀, hclock⟩ ?_
  intro es m _ ⟨t, hlast, hstamp, hpast⟩ hm
  have hpost := hm.stamp_eq
  rw [firings_snoc]
  cases hf : T.firing m with
  | none =>
      rw [hf] at hpost
      exact ⟨t, by simpa using hlast, hpost.trans hstamp, hpast.trans hm.clock_le⟩
  | some t' =>
      rw [hf] at hpost
      obtain ⟨hlook, -⟩ := firing_eq_some hf
      refine ⟨t', ?_, hpost, (hm.look_le t' hlook).2⟩
      rw [Option.toList_some, ← List.cons_append, List.getLast?_concat]

/-- Working times are the interval apart, the one that the first stamp stands
for included. -/
theorem Timer.firings_spaced (h : Run T.Obeys s es u) (h₀ : T.stamp s = millis t₀)
    (hclock : t₀ ≤ T.clock s) :
    (t₀ :: T.firings es).IsChain fun t t' => t + T.interval.toNat ≤ t' := by
  refine h.history
    (H := fun es _ => (t₀ :: T.firings es).IsChain fun t t' => t + T.interval.toNat ≤ t')
    (List.isChain_singleton _) ?_
  intro es m hrun ih hm
  obtain ⟨t, hlast, hstamp, hpast⟩ := stamp_last hrun h₀ hclock
  rw [firings_snoc]
  cases hf : T.firing m with
  | none => simpa using ih
  | some t' =>
      obtain ⟨hlook, helapsed⟩ := firing_eq_some hf
      rw [hstamp] at helapsed
      have hle := hpast.trans (hm.look_le t' hlook).1
      rw [Option.toList_some, ← List.cons_append, List.isChain_append]
      refine ⟨ih, List.isChain_singleton _, ?_⟩
      intro x hx y hy
      obtain rfl : x = t := Option.some.inj (hx.symm.trans hlast)
      obtain rfl : t' = y := Option.some.inj hy
      exact add_le_of_elapsed hle helapsed

/-! ## Not too late -/

/-- How long ago the stamp was taken, as the word has it. -/
def age (stamp : UInt32) (t : Nat) : Nat := (millis t - stamp).toNat

theorem elapsed_iff_age (stamp wait : UInt32) :
    elapsed (millis t) stamp wait = true ↔ wait.toNat ≤ age stamp t := by
  rw [elapsed, decide_eq_true_iff, UInt32.le_iff_toNat_le]
  rfl

/-- Until the word wraps, a stamp ages as time goes by. -/
theorem age_add {stamp : UInt32} (h : age stamp t + d < 2 ^ 32) :
    age stamp (t + d) = age stamp t + d := by
  rw [age, age, UInt32.toNat_sub, UInt32.toNat_sub, toNat_millis, toNat_millis] at *
  have hlt := stamp.toNat_lt
  omega

/-- Looks that come at most `d` apart and find the stamp too young are all
within the interval from the first. -/
theorem early_looks {stamp wait : UInt32} {ts : List Nat} (hd : wait.toNat + d ≤ 2 ^ 32)
    (hchain : (t :: ts).IsChain fun t t' => t ≤ t' ∧ t' ≤ t + d)
    (hearly : ∀ x ∈ t :: ts, elapsed (millis x) stamp wait = false) :
    ∀ x ∈ t :: ts, x < t + wait.toNat := by
  have hyoung : ∀ x ∈ t :: ts, age stamp x < wait.toNat := by
    intro x hx
    have hno := hearly x hx
    rw [← Bool.not_eq_true, elapsed_iff_age] at hno
    omega
  have hage : ∀ x ∈ t :: ts, t ≤ x ∧ age stamp x = age stamp t + (x - t) := by
    clear hearly
    induction ts generalizing t with
    | nil =>
        intro x hx
        obtain rfl := List.mem_singleton.mp hx
        omega
    | cons t' ts ih =>
        rw [List.isChain_cons_cons] at hchain
        obtain ⟨⟨hle, hsoon⟩, hrest⟩ := hchain
        rw [List.forall_mem_cons] at hyoung ⊢
        refine ⟨by omega, ?_⟩
        have hnext : age stamp (t + (t' - t)) = age stamp t + (t' - t) :=
          age_add (by have := hyoung.1; omega)
        rw [Nat.add_sub_cancel' hle] at hnext
        intro x hx
        obtain ⟨hle', hx'⟩ := ih hrest hyoung.2 x hx
        omega
  intro x hx
  have := hage x hx
  have := hyoung x hx
  omega

/-- A stretch in which it does not work is short: its last look comes before
one interval after its first. -/
theorem Timer.quiet_lt (h : Run T.Obeys s es u) (hquiet : T.firings es = [])
    (hd : T.interval.toNat + d ≤ 2 ^ 32)
    (hchain : (t₀ :: T.looks es).IsChain fun t t' => t ≤ t' ∧ t' ≤ t + d) :
    ∀ t ∈ T.looks es, t < t₀ + d + T.interval.toNat := by
  have hstill : T.stamp u = T.stamp s ∧
      ∀ t ∈ T.looks es, elapsed (millis t) (T.stamp s) T.interval = false := by
    clear hchain
    refine h.history (H := fun es u => T.firings es = [] → T.stamp u = T.stamp s ∧
      ∀ t ∈ T.looks es, elapsed (millis t) (T.stamp s) T.interval = false) ?_ ?_ hquiet
    · exact fun _ => ⟨rfl, by simp [looks]⟩
    · intro es m _ ih hm hno
      rw [firings_snoc, List.append_eq_nil_iff] at hno
      obtain ⟨hstamp, hall⟩ := ih hno.1
      have hnone : T.firing m = none := by simpa using hno.2
      have hpost := hm.stamp_eq
      rw [hnone] at hpost
      refine ⟨hpost.trans hstamp, ?_⟩
      intro t ht
      rw [looks_snoc] at ht
      rcases List.mem_append.mp ht with ht | ht
      · exact hall t ht
      · rw [firing, Option.filter_eq_none_iff] at hnone
        rw [hstamp] at hnone
        simpa using hnone t (by simpa using ht)
  cases hl : T.looks es with
  | nil => simp
  | cons t ts =>
      rw [hl] at hchain hstill
      rw [List.isChain_cons_cons] at hchain
      intro x hx
      have := early_looks hd hchain.2 hstill.2 x hx
      omega

end Polling
