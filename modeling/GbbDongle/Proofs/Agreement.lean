import GbbDongle.Proofs.Bench
import GbbDongle.Proofs.Events

/-!
# Manager, executor and store agree

`Sound` has the executor hold an emergency header exactly while the manager is
EXECUTING. Here is which one: the header was built from the current key, at the
last start of the executor, and nothing has been started since. Every start
finds the executor IDLE, because dispatching follows polling and a result that
is there has been taken.
-/

namespace Gbb

open History Wrap EmergencyManager ModbusExecutor

variable {P : Platform} {c : Config} {m : Moment} {es : List Moment} {w : World}
  {key : Bytes} {lines : List GbbLine}

/-- The events of a call of `start`. -/
def Event.isStart : Event → Bool
  | .handed .. | .started _ => true
  | _ => false

/-- The move starts the executor, with a set or with a request. -/
def Starts (m : Moment) : Prop := ∃ ev ∈ m.evs, ev.isStart = true

/-- The move starts the executor with the set of a key. -/
def Hands (key : Bytes) (lines : List GbbLine) (m : Moment) : Prop :=
  ∃ first, .handed first key lines ∈ m.evs

/-- What makes the manager EXECUTING: it was handed the set just now, or it was
EXECUTING already and the run goes on. -/
inductive RunCase (m : Moment) : Prop
  | handed (lines : List GbbLine) (idle : m.pre.executor.state = .idle)
      (hands : Hands m.post.manager.currentKey lines m)
      (header : SameRequest (runHeader m.post.manager.currentKey lines) m.post.executor.header)
  | goesOn (executing : m.pre.manager.state = .executing)
      (currentKey : m.post.manager.currentKey = m.pre.manager.currentKey)
      (header : SameRequest m.pre.executor.header m.post.executor.header)

theorem StepCase.run (hm : StepCase P c m) (hw : Sound m.pre)
    (hx : m.post.manager.state = .executing) : RunCase m := by
  cases hm with
  | quiet b executor manager =>
      rw [manager] at hx
      exact .goesOn hx (by rw [manager]) (by rw [executor]; exact .refl _)
  | message payload wall o header act parsed executor manager =>
      have hh := handleFields_handled P c.emergency wall o header m.pre.manager m.pre.flash
      rw [← manager] at hh
      rw [hh.state, stateAfter_executing] at hx
      exact .goesOn hx hh.currentKey (by rw [executor]; exact .refl _)
  | toggled on o act executor manager =>
      rw [manager] at hx
      exact .goesOn hx (by rw [manager]) (by rw [executor]; exact .refl _)
  | handled t info wait o act result emergency executor manager =>
      have hl := handleResult_left P c.emergency t o m.pre.executor.header m.pre.manager m.pre.flash
      rw [← manager] at hl
      exact absurd hx hl.state
  | finished info wait o act result emergency executor manager =>
      rw [manager] at hx
      rw [(hw.owner.mp hx).2] at emergency
      cases emergency
  | handed t key lines free queued next executor manager pending flash evs stage =>
      have hkey : m.post.manager.currentKey = key := by rw [manager]
      refine .handed lines (hw.idle_of_free stage.1 free) ⟨m.pre.manager.walkFromStart, ?_⟩ ?_
      · rw [hkey, evs]
        exact List.mem_cons_self ..
      · rw [hkey, executor]
        exact start_sameRequest t _ _
  | strayed free queued next =>
      obtain ⟨entry, he⟩ := hw.nextEntry queued
      rw [next] at he
      cases he
  | started t header free queued waiting executor manager pending flash evs stage =>
      rw [manager] at hx
      exact absurd hx (hw.not_executing_of_idle (hw.idle_of_free stage.1 free))
  | executed rx wait₁ wait₂ wait₃ t₁ t₂ t₃ act executor manager =>
      rw [manager] at hx
      refine .goesOn hx (by rw [manager]) ?_
      rw [executor]
      exact loop_sameRequest ..
  | checked wait₁ wait₂ t wall lastCheck act due executor check =>
      have hkept := check.kept
      exact .goesOn (hkept.executing.mp hx) hkept.currentKey (by rw [executor]; exact .refl _)

/-- The executor is started when it is IDLE. -/
theorem StepCase.starts (hm : StepCase P c m) (hw : Sound m.pre) (hs : Starts m) :
    m.pre.executor.state = .idle := by
  obtain ⟨ev, hev, hstart⟩ := hs
  have hkind : ev.kind = .cycle ∨ ev.kind = .cloud := by
    cases ev with
    | handed => exact .inl rfl
    | started => exact .inr rfl
    | _ => cases hstart
  cases hm.source hw hev with
  | started t header free => exact free
  | handed t first key lines opens queued next executor manager =>
      cases hm.run hw (by rw [manager]) with
      | handed _ idle => exact idle
      | goesOn executing =>
          rw [queued] at executing
          cases executing
  | bus kind => rw [kind] at hkind; simp at hkind
  | flash kind => rw [kind] at hkind; simp at hkind
  | checked _ _ _ _ _ kind => rw [kind] at hkind; simp at hkind
  | link kind => rw [kind] at hkind; simp at hkind
  | _ => cases hstart

/-- The header the executor holds was built from the current key, and nothing
has been started since. -/
def Owned (es : List Moment) (w : World) : Prop :=
  w.manager.state = .executing → ∃ lines, Since (Hands w.manager.currentKey lines)
    (fun m => ¬ Starts m) es ∧ SameRequest (runHeader w.manager.currentKey lines) w.executor.header

theorem Owned.snoc (h : Owned es m.pre) (hm : StepCase P c m) (hw : Sound m.pre) :
    Owned (es ++ [m]) m.post := by
  intro hx
  cases hm.run hw hx with
  | handed lines idle hands header => exact ⟨lines, since_snoc.mpr (.inl hands), header⟩
  | goesOn executing currentKey header =>
      obtain ⟨lines, hsince, hsame⟩ := h executing
      have hstill : ¬ Starts m := fun hs => hw.not_executing_of_idle (hm.starts hw hs) executing
      rw [currentKey]
      exact ⟨lines, since_snoc.mpr (.inr ⟨hsince, hstill⟩), hsame.trans header⟩

theorem Runs.owned {b : BootInput} (h : Runs P c (setup P b).1 es w) : Owned es w := by
  have hg := Runs.guarded h
  refine hg.history (H := Owned) ?_ fun _ m _ ho hm => ho.snoc hm.1 hm.2.1
  intro hx
  have hs := (Sound.setup P b).owner.mp hx
  exact absurd rfl hs.1

/-- What the three components know of the cycle fits together in every state:
who is EXECUTING what, when the manager is EMPTY, and that nothing running or
untaken is ever overwritten. -/
theorem components_agree {b : BootInput} (h : Runs P c (setup P b).1 es w) :
    (w.manager.state = .executing ↔
        w.executor.state ≠ .idle ∧ w.executor.header.emergency = true) ∧
      (w.manager.state = .executing → ∃ lines,
        Since (Hands w.manager.currentKey lines) (fun m => ¬ Starts m) es ∧
          SameRequest (runHeader w.manager.currentKey lines) w.executor.header) ∧
      (w.manager.state ≠ .executing →
        (w.manager.state = .empty ↔ w.manager.store.sets.isEmpty = true)) ∧
      ∀ m ∈ es, Starts m → m.pre.executor.state = .idle := by
  have hw := Runs.sound h
  refine ⟨hw.owner, Runs.owned h, hw.emptiness, ?_⟩
  intro m hm hs
  obtain ⟨hcase, hpre, -⟩ := (Runs.guarded h).mem hm
  exact hcase.starts hpre hs

/-- The first set of the night, while it runs. -/
theorem components_agree_night :
    ((performAll nightDevice {} (night.take 11) (setup nightDevice unplugged).1).2.executor.state ≠
        .idle) ∧
      ∀ m ∈ nightRun, Starts m → m.pre.executor.state = .idle := by
  have hfirst : Runs nightDevice {} (setup nightDevice unplugged).1 _
      (performAll nightDevice {} (night.take 11) (setup nightDevice unplugged).1).2 :=
    performAll_runs rfl
  have hnight : Runs nightDevice {} (setup nightDevice unplugged).1 nightRun _ :=
    performAll_runs rfl
  exact ⟨((components_agree hfirst).1.mp (by decide +kernel)).1, (components_agree hnight).2.2.2⟩

end Gbb
