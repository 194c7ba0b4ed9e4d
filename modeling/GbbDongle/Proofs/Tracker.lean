import GbbDongle.Lib.Gate
import GbbDongle.Model.Tracker

/-!
# The scan waits for its own dongle

The tracker remembers the first client that subscribes and follows it alone.
`watched` is what it is meant to know, read off the hooks that were called: the
client, its Plant Id, and whether it subscribed since it was last disconnected.
The channel in `ready` is a gate that is open while it is subscribed, and
`waitReady` is a waiter that may hold an old channel, or one it looked up
before there was a Plant Id. In the latter case it goes round once more, which
the source takes for impossible: the first call before the first dongle always
does.
-/

namespace Gbb.Busscan

open History Waiting

variable {t t' : Tracker} {h s : Hub} {m : HubMove} {es : List HubMove} {c p filter : Bytes}

/-! ## What there is to know -/

/-- The client the scan is locked on. -/
structure Client where
  clientID : Bytes
  plantID : Bytes
  subscribed : Bool
deriving DecidableEq

/-- What is known after a hook. The Plant Id is that of the first subscription,
and it is kept: a later filter of the client only tells that it is back. -/
def watch (d : Option Client) (a : HubAct) : Option Client :=
  match d, a with
  | none, .subscribe c filter => (plantOf filter).map fun p => ⟨c, p, true⟩
  | some d, .subscribe c filter =>
      if (plantOf filter).isSome ∧ c = d.clientID then some { d with subscribed := true }
      else some d
  | some d, .disconnect c => if c = d.clientID then some { d with subscribed := false } else some d
  | d, _ => d

def watched (es : List HubMove) : Option Client := (es.map Move.act).foldl watch none

/-- The broker gives every client an id. -/
def HubAct.named : HubAct → Bool
  | .subscribe c _ => !c.isEmpty
  | _ => true

theorem HubAct.named_subscribe (h : (HubAct.subscribe c filter).named = true) : c ≠ [] := by
  rintro rfl
  cases h

/-- A call of a hook. -/
def HubAct.hook : HubAct → Bool
  | .subscribe .. | .disconnect _ => true
  | _ => false

/-- The Plant Id of the dongle while it is subscribed. -/
def livePlant (es : List HubMove) : Option Bytes :=
  (watched es).bind fun d => if d.subscribed then some d.plantID else none

theorem watched_snoc : watched (es ++ [m]) = watch (watched es) m.act := by
  rw [watched, List.map_append, List.foldl_append]
  rfl

/-! ## The tracker -/

/-- The gate that `ready` is. -/
def readyGate (t : Tracker) : Gate := ⟨t.ready, t.isClosed t.ready⟩

/-- The tracker knows what there is to know. -/
structure Tracks (d : Option Client) (t : Tracker) : Prop where
  made : t.made = t.ready + 1
  closed : ∀ n, t.isClosed n = (readyGate t).passes n
  unknown : d = none → t.clientID = [] ∧ t.plantID = [] ∧ t.isClosed t.ready = false
  known : ∀ d', d = some d' → t.clientID = d'.clientID ∧ t.plantID = d'.plantID ∧
    d'.clientID ≠ [] ∧ t.isClosed t.ready = d'.subscribed

theorem Tracks.locked {d : Client} (made : t.made = t.ready + 1)
    (closed : ∀ n, t.isClosed n = (readyGate t).passes n) (client : t.clientID = d.clientID)
    (plant : t.plantID = d.plantID) (named : d.clientID ≠ [])
    (subscribed : t.isClosed t.ready = d.subscribed) : Tracks (some d) t := by
  refine ⟨made, closed, fun hd => ?_, fun d' hd => ?_⟩
  · cases hd
  · obtain rfl := Option.some.inj hd
    exact ⟨client, plant, named, subscribed⟩

theorem isClosed_cons {ch n : Nat} :
    ({ t with closed := ch :: t.closed } : Tracker).isClosed n = (n == ch || t.isClosed n) := by
  simp only [Tracker.isClosed, List.contains_cons]

/-- Closing the channel that is open opens the gate. -/
theorem close_ready (hopen : t.isClosed t.ready = false) :
    t.close t.ready = some { t with closed := t.ready :: t.closed } := by
  rw [Tracker.close, hopen]
  rfl

theorem readyGate_close : readyGate { t with closed := t.ready :: t.closed } = ⟨t.ready, true⟩ := by
  rw [readyGate, isClosed_cons]
  simp

/-- After it was closed, as before. -/
theorem closed_close (hopen : t.isClosed t.ready = false)
    (hclosed : ∀ n, t.isClosed n = (readyGate t).passes n) (n : Nat) :
    ({ t with closed := t.ready :: t.closed } : Tracker).isClosed n =
      (readyGate { t with closed := t.ready :: t.closed }).passes n := by
  rw [isClosed_cons, readyGate_close, hclosed]
  simp only [Gate.passes, readyGate, hopen, Bool.and_false, Bool.or_false, Bool.and_true]
  exact Bool.or_comm _ _

/-- A named client subscribes: nothing panics, and the tracker keeps up. -/
theorem Tracks.subscribed {d : Option Client} (h : Tracks d t) (hc : c ≠ [])
    (hplant : plantOf filter = some p) :
    ∃ t', t.subscribed c p = some t' ∧ Tracks (watch d (.subscribe c filter)) t' ∧
      Next (readyGate t) (readyGate t') := by
  cases d with
  | none =>
      obtain ⟨hclient, hplantID, hopen⟩ := h.unknown rfl
      have hopen' : ({ t with clientID := c, plantID := p } : Tracker).isClosed t.ready = false :=
        hopen
      refine ⟨{ t with clientID := c, plantID := p, closed := t.ready :: t.closed }, ?_, ?_, ?_⟩
      · rw [Tracker.subscribed, if_pos hclient]
        exact close_ready (t := { t with clientID := c, plantID := p }) hopen'
      · refine ⟨h.made, closed_close (t := { t with clientID := c, plantID := p }) hopen' h.closed,
          fun hd => ?_, fun d' hd => ?_⟩
        · rw [watch, hplant] at hd
          cases hd
        · rw [watch, hplant] at hd
          obtain rfl := Option.some.inj hd
          refine ⟨rfl, rfl, hc, ?_⟩
          exact congrArg Gate.isOpen (readyGate_close (t := { t with clientID := c, plantID := p }))
      · rw [show readyGate { t with clientID := c, plantID := p, closed := t.ready :: t.closed } =
          ⟨t.ready, true⟩ from readyGate_close (t := { t with clientID := c, plantID := p })]
        exact .raised hopen
  | some d =>
      obtain ⟨hclient, hplantID, hne, hsub⟩ := h.known d rfl
      rw [Tracker.subscribed, if_neg (by rw [hclient]; exact hne)]
      by_cases hsame : c = d.clientID
      · have hwatch : watch (some d) (.subscribe c filter) =
            some { d with subscribed := true } := by
          rw [watch, if_pos ⟨by rw [hplant]; rfl, hsame⟩]
        rw [if_pos (hsame.trans hclient.symm), hwatch]
        cases hopen : t.isClosed t.ready with
        | true =>
            exact ⟨t, rfl, .locked h.made h.closed hclient hplantID hne hopen, .same⟩
        | false =>
            refine ⟨_, close_ready hopen, .locked h.made (closed_close hopen h.closed) hclient
              hplantID hne (congrArg Gate.isOpen readyGate_close), ?_⟩
            rw [readyGate_close]
            exact .raised hopen
      · have hwatch : watch (some d) (.subscribe c filter) = some d := by
          rw [watch, if_neg fun hand => hsame hand.2]
        rw [if_neg fun heq => hsame (heq.trans hclient), hwatch]
        exact ⟨t, rfl, h, .same⟩

theorem Tracks.onSubscribed {d : Option Client} (h : Tracks d t) (filter : Bytes) (hc : c ≠ []) :
    ∃ t', onSubscribed c filter t = some t' ∧ Tracks (watch d (.subscribe c filter)) t' ∧
      Next (readyGate t) (readyGate t') := by
  rw [Busscan.onSubscribed]
  cases hplant : plantOf filter with
  | some p => exact h.subscribed hc hplant
  | none =>
      have hwatch : watch d (.subscribe c filter) = d := by
        cases d <;> simp [watch, hplant]
      rw [hwatch]
      exact ⟨t, rfl, h, .same⟩

/-- A client is gone: the dongle's channel is replaced. -/
theorem Tracks.disconnected {d : Option Client} (h : Tracks d t) :
    Tracks (watch d (.disconnect c)) (t.disconnected c) ∧
      Next (readyGate t) (readyGate (t.disconnected c)) := by
  rw [Tracker.disconnected]
  cases d with
  | none =>
      obtain ⟨hclient, hplantID, hopen⟩ := h.unknown rfl
      rw [hopen, if_neg Bool.false_ne_true, ite_self]
      exact ⟨h, .same⟩
  | some d =>
      obtain ⟨hclient, hplantID, hne, hsub⟩ := h.known d rfl
      by_cases hsame : c = d.clientID
      · have hwatch : watch (some d) (.disconnect c) = some { d with subscribed := false } := by
          rw [watch, if_pos hsame]
        rw [hwatch, if_neg (not_not.mpr (hsame.trans hclient.symm))]
        cases hopen : t.isClosed t.ready with
        | false =>
            rw [if_neg Bool.false_ne_true]
            exact ⟨.locked h.made h.closed hclient hplantID hne hopen, .same⟩
        | true =>
            have hnew : t.isClosed t.made = false := by
              rw [h.closed, h.made]
              simp only [Gate.passes, readyGate, hopen, Bool.and_true, Bool.or_eq_false_iff,
                decide_eq_false_iff_not, beq_eq_false_iff_ne]
              omega
            have hgate : readyGate { t with ready := t.made, made := t.made + 1 } =
                ⟨t.ready + 1, false⟩ := by
              rw [← h.made]
              exact congrArg (Gate.mk t.made) hnew
            rw [if_pos rfl]
            refine ⟨.locked rfl (fun n => ?_) hclient hplantID hne hnew, ?_⟩
            · rw [hgate]
              show t.isClosed n = _
              rw [h.closed]
              simp only [Gate.passes, readyGate, hopen, Bool.and_true, Bool.and_false,
                Bool.or_false]
              rw [Bool.eq_iff_iff]
              simp only [Bool.or_eq_true, decide_eq_true_eq, beq_iff_eq]
              omega
            · rw [hgate]
              exact .shut hopen
      · have hwatch : watch (some d) (.disconnect c) = some d := by
          rw [watch, if_neg hsame]
        rw [hwatch, if_pos fun heq => hsame (heq.trans hclient)]
        exact ⟨h, .same⟩

/-! ## The call that waits -/

/-- The moves of the tool with a broker that gives every client an id. -/
def NamedStep (m : HubMove) : Prop := HubStep m ∧ m.act.named = true

instance : DecidablePred NamedStep := fun _ => inferInstanceAs (Decidable ((_ ∧ _) ∧ _))

/-- What `waitReady` does by itself. -/
inductive WaitStep (t : Tracker) : HubAct → Option Waiter → List HubEvent → Option Waiter → Prop
  | called : WaitStep t .call none [] (some .locking)
  | looked : WaitStep t .lock (some .locking) [] (some (.selecting t.ready t.plantID))
  /-- It goes round. -/
  | again {ch : Nat} : t.isClosed ch = true →
      WaitStep t .receive (some (.selecting ch [])) [] (some .locking)
  | returned {ch : Nat} {p : Bytes} : t.isClosed ch = true → p ≠ [] →
      WaitStep t .receive (some (.selecting ch p)) [.returned p] none
  | gaveUp {ch : Nat} {p : Bytes} : WaitStep t .giveUp (some (.selecting ch p)) [.gaveUp] none

/-- It waits for what it just read. -/
theorem WaitStep.selecting {a : HubAct} {w w' : Option Waiter} {evs : List HubEvent} {ch : Nat}
    (h : WaitStep t a w evs w') (hw : w' = some (.selecting ch p)) :
    a = .lock ∧ ch = t.ready ∧ p = t.plantID := by
  cases h with
  | looked =>
      obtain ⟨rfl, rfl⟩ := Waiter.selecting.inj (Option.some.inj hw)
      exact ⟨rfl, rfl, rfl⟩
  | _ => simp at hw

theorem WaitStep.returns {a : HubAct} {w w' : Option Waiter} {evs : List HubEvent}
    (h : WaitStep t a w evs w') (hp : .returned p ∈ evs) :
    p ≠ [] ∧ ∃ ch, w = some (.selecting ch p) ∧ t.isClosed ch = true := by
  cases h with
  | returned hclosed hne =>
      obtain rfl := HubEvent.returned.inj (List.mem_singleton.mp hp)
      exact ⟨hne, _, rfl, hclosed⟩
  | _ => simp at hp

/-- A move is a hook's, or that of the call that waits. -/
theorem HubStep.hook_or (hm : HubStep m) :
    (m.act.hook = true ∧ m.post.waiter = m.pre.waiter ∧ m.evs = []) ∨
      (m.act.hook = false ∧ m.post.tracker = m.pre.tracker ∧
        WaitStep m.pre.tracker m.act m.pre.waiter m.evs m.post.waiter) := by
  obtain ⟨⟨tracker, waiter⟩, a, evs, post⟩ := m
  obtain ⟨hfits, hrun⟩ := hm
  simp only at hfits hrun ⊢
  cases a with
  | subscribe c filter =>
      obtain ⟨t', -, heq⟩ := Option.map_eq_some_iff.mp hrun
      obtain ⟨rfl, rfl⟩ := Prod.mk.inj heq
      exact .inl ⟨rfl, rfl, rfl⟩
  | disconnect c =>
      obtain ⟨rfl, rfl⟩ := Prod.mk.inj (Option.some.inj hrun)
      exact .inl ⟨rfl, rfl, rfl⟩
  | call =>
      obtain ⟨rfl, rfl⟩ := Prod.mk.inj (Option.some.inj hrun)
      cases waiter with
      | none => exact .inr ⟨rfl, rfl, .called⟩
      | some w => cases hfits
  | lock =>
      obtain ⟨rfl, rfl⟩ := Prod.mk.inj (Option.some.inj hrun)
      rcases waiter with _ | (_ | ⟨ch, p⟩)
      · cases hfits
      · exact .inr ⟨rfl, rfl, .looked⟩
      · cases hfits
  | receive =>
      rcases waiter with _ | (_ | ⟨ch, p⟩)
      · cases hfits
      · cases hfits
      · rw [HubAct.run] at hrun
        simp only at hrun
        by_cases hp : p = []
        · subst hp
          rw [if_pos rfl] at hrun
          obtain ⟨rfl, rfl⟩ := Prod.mk.inj (Option.some.inj hrun)
          exact .inr ⟨rfl, rfl, .again hfits⟩
        · rw [if_neg hp] at hrun
          obtain ⟨rfl, rfl⟩ := Prod.mk.inj (Option.some.inj hrun)
          exact .inr ⟨rfl, rfl, .returned hfits hp⟩
  | giveUp =>
      obtain ⟨rfl, rfl⟩ := Prod.mk.inj (Option.some.inj hrun)
      rcases waiter with _ | (_ | ⟨ch, p⟩)
      · cases hfits
      · cases hfits
      · exact .inr ⟨rfl, rfl, .gaveUp⟩

/-! ## The two together -/

/-- Who is followed stays the same. -/
theorem watch_some {d : Client} (a : HubAct) :
    ∃ d', watch (some d) a = some d' ∧ d'.clientID = d.clientID ∧ d'.plantID = d.plantID := by
  cases a with
  | subscribe c filter =>
      rw [watch]
      split
      · exact ⟨_, rfl, rfl, rfl⟩
      · exact ⟨d, rfl, rfl, rfl⟩
  | disconnect c =>
      rw [watch]
      split
      · exact ⟨_, rfl, rfl, rfl⟩
      · exact ⟨d, rfl, rfl, rfl⟩
  | _ => exact ⟨d, rfl, rfl, rfl⟩

/-- What is known changes in hooks alone. -/
theorem watch_of_not_hook {d : Option Client} {a : HubAct} (ha : a.hook = false) :
    watch d a = d := by
  cases a with
  | subscribe => cases ha
  | disconnect => cases ha
  | _ => cases d <;> rfl

/-- Only a dongle has a Plant Id. -/
theorem Tracks.client {d : Option Client} (h : Tracks d t) (hp : t.plantID ≠ []) :
    ∃ d', d = some d' ∧ t.plantID = d'.plantID := by
  cases d with
  | none => exact absurd (h.unknown rfl).2.1 hp
  | some d' => exact ⟨d', rfl, (h.known d' rfl).2.1⟩

/-- What any hook does to the tracker. -/
theorem Tracks.hook {d : Option Client} (h : Tracks d m.pre.tracker) (hm : NamedStep m)
    (hhook : m.act.hook = true) :
    Tracks (watch d m.act) m.post.tracker ∧
      Next (readyGate m.pre.tracker) (readyGate m.post.tracker) := by
  obtain ⟨pre, a, evs, post⟩ := m
  obtain ⟨⟨-, hrun⟩, hnamed⟩ := hm
  simp only at h hrun hnamed hhook ⊢
  cases a with
  | subscribe c filter =>
      obtain ⟨t', ht', htracks, hnext⟩ :=
        h.onSubscribed filter (HubAct.named_subscribe hnamed)
      rw [HubAct.run, ht'] at hrun
      obtain ⟨rfl, -⟩ := Prod.mk.inj (Option.some.inj hrun)
      exact ⟨htracks, hnext⟩
  | disconnect c =>
      obtain ⟨rfl, -⟩ := Prod.mk.inj (Option.some.inj hrun)
      exact h.disconnected
  | _ => cases hhook

/-- What a waiting call read under the mutex may be old, but it was never
wrong. -/
structure HubTracks (d : Option Client) (h : Hub) : Prop where
  tracks : Tracks d h.tracker
  ready : ∀ ch p, h.waiter = some (.selecting ch p) → ch ≤ h.tracker.ready
  plant : ∀ ch p, h.waiter = some (.selecting ch p) → p ≠ [] → p = h.tracker.plantID

/-- A Plant Id, once there, stays. -/
theorem Tracks.plantID_hook {d : Option Client} {a : HubAct} (h : Tracks d t)
    (h' : Tracks (watch d a) t') (hp : t.plantID ≠ []) : t'.plantID = t.plantID := by
  obtain ⟨d₀, rfl, hd₀⟩ := h.client hp
  obtain ⟨d₁, hd₁, -, hsame⟩ := watch_some (d := d₀) a
  rw [hd₀, ← hsame]
  exact (h'.known d₁ hd₁).2.1

theorem HubTracks.step {d : Option Client} (h : HubTracks d m.pre) (hm : NamedStep m) :
    HubTracks (watch d m.act) m.post ∧
      Next (readyGate m.pre.tracker) (readyGate m.post.tracker) := by
  rcases hm.1.hook_or with ⟨hhook, hwaiter, -⟩ | ⟨hhook, htracker, hwaits⟩
  · obtain ⟨htracks, hnext⟩ := h.tracks.hook hm hhook
    refine ⟨⟨htracks, fun ch p hw => ?_, fun ch p hw hp => ?_⟩, hnext⟩
    · exact Nat.le_trans (h.ready ch p (hwaiter ▸ hw)) hnext.generation_le
    · have hplant := h.plant ch p (hwaiter ▸ hw) hp
      exact hplant.trans (h.tracks.plantID_hook htracks (hplant ▸ hp)).symm
  · rw [watch_of_not_hook hhook, htracker]
    refine ⟨⟨htracker ▸ h.tracks, ?_, ?_⟩, .same⟩
    · intro ch p hw
      rw [htracker, (hwaits.selecting hw).2.1]
    · intro ch p hw _
      rw [htracker, (hwaits.selecting hw).2.2]

/-! ## Whole runs -/

theorem hubTracks_nil : HubTracks (watched []) {} := by
  refine ⟨⟨rfl, fun n => ?_, fun _ => ⟨rfl, rfl, rfl⟩, fun d hd => ?_⟩, fun ch p hw => ?_,
    fun ch p hw _ => ?_⟩
  · simp [readyGate, Gate.passes, newTracker, Tracker.isClosed]
  · simp [watched] at hd
  · cases hw
  · cases hw

theorem hub_tracks (h : Run NamedStep {} es s) : HubTracks (watched es) s := by
  refine h.history (H := fun es s => HubTracks (watched es) s) hubTracks_nil ?_
  intro es m _ hi hm
  rw [watched_snoc]
  exact (hi.step hm).1

/-- The gate is open while the dongle is subscribed. -/
theorem ready_iff (h : Run NamedStep {} es s) :
    s.tracker.isClosed s.tracker.ready = (livePlant es).isSome := by
  have htracks := (hub_tracks h).tracks
  cases hd : watched es with
  | none => simp [(htracks.unknown hd).2.2, livePlant, hd]
  | some d =>
      rw [(htracks.known d hd).2.2.2, livePlant, hd]
      cases hsub : d.subscribed <;> simp [hsub]

theorem livePlant_eq (h : Run NamedStep {} es s)
    (hready : s.tracker.isClosed s.tracker.ready = true) :
    livePlant es = some s.tracker.plantID := by
  have hsome := (ready_iff h).symm.trans hready
  cases hd : watched es with
  | none => simp [livePlant, hd] at hsome
  | some d =>
      rw [((hub_tracks h).tracks.known d hd).2.1]
      rw [livePlant, hd] at hsome ⊢
      cases hsub : d.subscribed with
      | true => simp [hsub]
      | false => simp [hsub] at hsome

/-- Nothing that happens moves the gate in another way. -/
theorem gate_moves (h : Run NamedStep {} es s) {fs : List HubMove} {u : Hub}
    (hrun : Run NamedStep s fs u) :
    Run (fun m => Next (readyGate m.pre.tracker) (readyGate m.post.tracker)) s fs u := by
  have hguarded := hrun.guarded (I := fun s => ∃ d, HubTracks d s) ⟨_, hub_tracks h⟩
    fun m hm hi => hi.elim fun d hd => ⟨_, (hd.step hm).1⟩
  exact hguarded.mono fun m hm => hm.2.1.elim fun d hd => (hd.step hm.1).2

theorem plantID_kept (h : Run NamedStep {} es s) {fs : List HubMove} {u : Hub}
    (hrun : Run NamedStep s fs u) (hp : s.tracker.plantID ≠ []) :
    u.tracker.plantID = s.tracker.plantID := by
  induction hrun with
  | nil => rfl
  | @snoc fs m hrun hm ih =>
      have hpre := hub_tracks (h.append hrun)
      rw [← ih] at hp ⊢
      exact hpre.tracks.plantID_hook (hpre.step hm).1.tracks hp

/-- A call at its `select` looked the tracker up, and only hooks were called
since. -/
theorem looked_up (h : Run NamedStep {} es s) :
    ∀ ch p, s.waiter = some (.selecting ch p) → ∃ start x since, es = start ++ x :: since ∧
      x.act = .lock ∧ (∀ y ∈ since, y.act.hook = true) ∧ ch = x.post.tracker.ready ∧
      p = x.post.tracker.plantID := by
  refine h.history (H := fun es s => ∀ ch p, s.waiter = some (.selecting ch p) →
    ∃ start x since, es = start ++ x :: since ∧ x.act = .lock ∧
      (∀ y ∈ since, y.act.hook = true) ∧ ch = x.post.tracker.ready ∧
      p = x.post.tracker.plantID) ?_ ?_
  · intro ch p hw
    cases hw
  · intro es m _ ih hm ch p hw
    rcases hm.1.hook_or with ⟨hhook, hwaiter, -⟩ | ⟨-, htracker, hwaits⟩
    · obtain ⟨start, x, since, rfl, hx, hsince, hch, hp⟩ := ih ch p (hwaiter ▸ hw)
      refine ⟨start, x, since ++ [m], by simp, hx, fun y hy => ?_, hch, hp⟩
      rcases List.mem_append.mp hy with hy | hy
      · exact hsince y hy
      · rwa [List.mem_singleton.mp hy]
    · obtain ⟨hlock, rfl, rfl⟩ := hwaits.selecting hw
      exact ⟨es, m, [], rfl, hlock, by simp, by rw [htracker], by rw [htracker]⟩

/-- What `waitReady` returns is the Plant Id of the dongle, which was subscribed
when the call looked it up or became so since; and no panic ends the tool. -/
theorem waitReady_sound (h : Run NamedStep {} es s) :
    (∀ a : HubAct, a.named = true → (a.run s).isSome = true) ∧
      s.tracker.isClosed s.tracker.ready = (livePlant es).isSome ∧
      ∀ before m after p, es = before ++ m :: after → .returned p ∈ m.evs →
        p ≠ [] ∧ ∃ start x since rest, before = start ++ x :: (since ++ rest) ∧ x.act = .lock ∧
          (∀ y ∈ since ++ rest, y.act.hook = true) ∧
          livePlant (start ++ x :: since) = some p := by
  refine ⟨fun a hnamed => ?_, ready_iff h, ?_⟩
  · cases a with
    | subscribe c filter =>
        obtain ⟨t', ht', -⟩ := (hub_tracks h).tracks.onSubscribed filter
          (HubAct.named_subscribe hnamed)
        simp [HubAct.run, ht']
    | receive =>
        rw [HubAct.run]
        split
        · split <;> rfl
        · rfl
    | _ => rfl
  · rintro before m after p rfl hret
    obtain ⟨hbefore, hm, -⟩ := h.at
    rcases hm.1.hook_or with ⟨-, -, hnone⟩ | ⟨-, -, hwaits⟩
    · rw [hnone] at hret
      cases hret
    · obtain ⟨hp, ch, hw, hclosed⟩ := hwaits.returns hret
      obtain ⟨start, x, since, rfl, hlock, hsince, rfl, rfl⟩ := looked_up hbefore ch p hw
      refine ⟨hp, ?_⟩
      obtain ⟨hstart, hx, hrun⟩ := hbefore.at
      have hlooked : Run NamedStep {} (start ++ [x]) x.post := .snoc hstart hx
      rw [(hub_tracks (hlooked.append hrun)).tracks.closed] at hclosed
      have hopened := opened_of_passes (fun h : Hub => readyGate h.tracker)
        (fun _ hnext => hnext) (gate_moves hlooked hrun) hclosed
      rcases hopened with hopen | ⟨y, hy, hopen⟩
      · exact ⟨start, x, [], since, rfl, hlock, hsince, livePlant_eq hlooked hopen⟩
      · obtain ⟨since, rest, rfl⟩ := List.append_of_mem hy
        refine ⟨start, x, since ++ [y], rest, by simp, hlock, by simpa using hsince, ?_⟩
        obtain ⟨hrun', hy', -⟩ := hrun.at
        have hrun' : Run NamedStep x.post (since ++ [y]) y.post := .snoc hrun' hy'
        have hlive := livePlant_eq (hlooked.append hrun') hopen
        rw [plantID_kept hlooked hrun' hp] at hlive
        simpa using hlive

/-- What an act does, for runs of acts that fit. -/
def takes (a : HubAct) (s : Hub) : Hub × List HubEvent := (a.run s).getD (s, [])

/-- The call is there before the dongle, which restarts before it is asked. -/
def restart : List HubAct :=
  [.call, .lock, .subscribe (text "c1") (text "P/ModbusInMqtt/toDevice"), .receive,
    .disconnect (text "c1"), .lock, .subscribe (text "c1") (text "P/ModbusInMqtt/toDevice"),
    .receive]

theorem restart_run : Run NamedStep {} (moves takes restart {}) (after takes restart {}) :=
  moves_run.of_mem (by decide +kernel)

theorem waitReady_sound_restart :
    (moves takes restart {}).getLast?.map (·.evs) = some [.returned (text "P")] ∧
      livePlant (moves takes restart {}) = some (text "P") ∧
      ∀ before m after p, moves takes restart {} = before ++ m :: after →
        .returned p ∈ m.evs →
        p ≠ [] ∧ ∃ start x since rest, before = start ++ x :: (since ++ rest) ∧ x.act = .lock ∧
          (∀ y ∈ since ++ rest, y.act.hook = true) ∧
          livePlant (start ++ x :: since) = some p :=
  ⟨by decide +kernel, by decide +kernel, (waitReady_sound restart_run).2.2⟩

/-! ## It returns -/

/-- How many steps there are before the one that returns. -/
def stepsLeft : Option Waiter → Nat
  | some (.selecting _ []) => 2
  | some .locking => 1
  | _ => 0

theorem stepsLeft_le (w : Option Waiter) : stepsLeft w ≤ 2 := by
  rw [stepsLeft.eq_def]
  split <;> omega

theorem stepsLeft_selecting {ch : Nat} (hp : p ≠ []) :
    stepsLeft (some (.selecting ch p)) = 0 := by
  cases p with
  | nil => exact absurd rfl hp
  | cons => rfl

/-- While there is a Plant Id to read, each step of a call that does not end it
brings it closer. -/
theorem WaitStep.stepsLeft_lt {a : HubAct} {w w' : Option Waiter} (h : WaitStep t a w [] w')
    (hw : w ≠ none) (hp : t.plantID ≠ []) : w' ≠ none ∧ stepsLeft w' < stepsLeft w := by
  generalize hevs : ([] : List HubEvent) = evs at h
  cases h with
  | called => exact absurd rfl hw
  | looked =>
      refine ⟨by simp, ?_⟩
      rw [stepsLeft_selecting hp]
      exact Nat.zero_lt_one
  | again => exact ⟨by simp, Nat.lt_succ_self 1⟩
  | returned => cases hevs
  | gaveUp => cases hevs

/-- An open gate keeps nobody waiting. -/
theorem HubTracks.fits {d : Option Client} (h : HubTracks d s) (hw : s.waiter ≠ none)
    (hready : s.tracker.isClosed s.tracker.ready = true) :
    HubAct.lock.fits s = true ∨ HubAct.receive.fits s = true := by
  obtain ⟨tracker, waiter⟩ := s
  rcases waiter with _ | (_ | ⟨ch, p⟩)
  · exact absurd rfl hw
  · exact .inl rfl
  · refine .inr ?_
    show tracker.isClosed ch = true
    rw [h.tracks.closed]
    exact passes_of_open hready (h.ready ch p rfl)

/-- While the dongle stays subscribed a call of `waitReady` is never blocked,
and it is back with the Plant Id at its third step at the latest. -/
theorem waitReady_returns {fs : List HubMove} {u : Hub} (h : Run NamedStep {} es s)
    (hcalled : s.waiter ≠ none) (hp : p ≠ []) (hrun : Run NamedStep s fs u)
    (hlive : ∀ past, past <+: fs → livePlant (es ++ past) = some p)
    (hgoing : ∀ m ∈ fs, m.evs = []) :
    fs.countP (fun m => !m.act.hook) ≤ 2 ∧
      (HubAct.lock.fits u = true ∨ HubAct.receive.fits u = true) ∧
      ∀ m q, NamedStep m → m.pre = u → .returned q ∈ m.evs → q = p := by
  have hreads : ∀ {past v}, past <+: fs → Run NamedStep s past v →
      v.tracker.isClosed v.tracker.ready = true ∧ v.tracker.plantID = p := by
    intro past v hpast hv
    have hready : v.tracker.isClosed v.tracker.ready = true := by
      rw [ready_iff (h.append hv), hlive past hpast]
      rfl
    have hplant := livePlant_eq (h.append hv) hready
    rw [hlive past hpast] at hplant
    exact ⟨hready, (Option.some.inj hplant).symm⟩
  have hall : ∀ {past v}, past <+: fs → Run NamedStep s past v →
      v.waiter ≠ none ∧ past.countP (fun m => !m.act.hook) + stepsLeft v.waiter ≤ 2 := by
    intro past v hpast hv
    induction hv with
    | nil => exact ⟨hcalled, by simpa using stepsLeft_le s.waiter⟩
    | @snoc past m hv hm ih =>
        have hbefore : past <+: fs := (List.prefix_append past [m]).trans hpast
        have hevs := hgoing m (hpast.subset (by simp))
        obtain ⟨hwaiting, hcount⟩ := ih hbefore
        rw [List.countP_append, List.countP_singleton]
        rcases hm.1.hook_or with ⟨hhook, hwaiter, -⟩ | ⟨hhook, htracker, hwaits⟩
        · rw [hwaiter, hhook]
          exact ⟨hwaiting, hcount⟩
        · rw [hevs] at hwaits
          have hplant := (hreads hbefore hv).2
          obtain ⟨hne, hlt⟩ := hwaits.stepsLeft_lt hwaiting (hplant ▸ hp)
          rw [hhook]
          refine ⟨hne, ?_⟩
          simp only [Bool.not_false, if_true]
          omega
  obtain ⟨hwaiting, hcount⟩ := hall (List.prefix_refl fs) hrun
  obtain ⟨hready, hplant⟩ := hreads (List.prefix_refl fs) hrun
  have htracks := hub_tracks (h.append hrun)
  refine ⟨by omega, htracks.fits hwaiting hready, ?_⟩
  rintro m q hm rfl hret
  rcases hm.1.hook_or with ⟨-, -, hnone⟩ | ⟨-, -, hwaits⟩
  · rw [hnone] at hret
    cases hret
  · obtain ⟨hq, ch, hw, -⟩ := hwaits.returns hret
    exact (htracks.plant ch q hw hq).trans hplant

theorem waitReady_returns_first :
    (moves takes [.receive, .lock] (after takes (restart.take 3) {})).countP
      (fun m => !m.act.hook) ≤ 2 := by
  refine (waitReady_returns (p := text "P") (moves_run.of_mem (by decide +kernel))
    (by decide +kernel) (by decide +kernel) (moves_run.of_mem (by decide +kernel))
    (fun past hpast => ?_) (by decide +kernel)).1
  have hall : ∀ past ∈ (moves takes [.receive, .lock] (after takes (restart.take 3) {})).inits,
      livePlant (moves takes (restart.take 3) {} ++ past) = some (text "P") := by
    decide +kernel
  exact hall past ((List.mem_inits _ _).mpr hpast)

end Gbb.Busscan
