import GbbDongle.Lib.Retry
import GbbDongle.Model.Reconfigure

/-!
# When busscan puts a dongle back

From the bottom up: what one POST comes to is decided by the attempts that are
made of it, what `applyConfig` comes to by its five POSTs, and what `run` leaves
behind by the two `applyConfig` of it. A restore function exists only once the
whole reconfiguration has succeeded; the dongle has changed as soon as the
first POST of it was acted on. The gap between the two is the condition.
-/

namespace Gbb.Busscan

open Retry

variable {tries : Tries} {req : Request} {reqs : List Request} {net : Request → Tries}
  {left attempt : Nat} {d d' : Dongle} {w : World} {cfg saved : DongleConfig} {ip : Bytes}
  {s : Session}

/-! ## One POST -/

/-- A transport error, after which `post` may try again. -/
def Attempt.Transient : Attempt → Prop
  | .transport _ => True
  | .response _ _ _ | .unbuilt => False

/-- A response that `post` takes for success. -/
def Attempt.Ok : Attempt → Prop
  | .response status _ _ => status = 200
  | .transport _ | .unbuilt => False

theorem Attempt.Ok.acted {a : Attempt} (h : a.Ok) : a.acted = true := by
  cases a with
  | response status acted ok => exact ok h
  | transport => cases h
  | unbuilt => cases h

/-- Of the attempts from the given one on, one that is made has the property. -/
def Tries.Meet (tries : Tries) (p : Attempt → Prop) (left attempt : Nat) : Prop :=
  ¬ tries.calledOff attempt = true ∧
    Meets Attempt.Transient (tries.calledOff · = true) tries.attempt p left attempt

/-- An attempt of the three is answered 200. -/
def Tries.Succeeds (tries : Tries) : Prop := tries.Meet Attempt.Ok 3 0

/-- The dongle acts on an attempt of the three. -/
def Tries.Acts (tries : Tries) : Prop := tries.Meet (·.acted = true) 3 0

theorem Tries.Succeeds.acts (h : tries.Succeeds) : tries.Acts :=
  ⟨h.1, h.2.mono fun _ => Attempt.Ok.acted⟩

section
variable {p : Attempt → Prop}

theorem meet_zero : ¬ tries.Meet p 0 attempt := by
  intro ⟨_, h⟩
  exact meets_zero h

/-- Whatever is no transport error settles the matter. -/
theorem meet_settled (hon : ¬ tries.calledOff attempt = true)
    (hlast : ¬ (tries.attempt attempt).Transient) :
    tries.Meet p (left + 1) attempt ↔ p (tries.attempt attempt) := by
  rw [Tries.Meet, meets_settled hlast, and_iff_right hon]

theorem meet_transport {acted : Bool} (hon : ¬ tries.calledOff attempt = true)
    (ha : tries.attempt attempt = .transport acted) :
    tries.Meet p (left + 1) attempt ↔
      p (.transport acted) ∨ tries.Meet p left (attempt + 1) := by
  have hagain : (tries.attempt attempt).Transient := by
    rw [ha]
    trivial
  rw [Tries.Meet, meets_succ, and_iff_right hon, and_iff_right hagain, ha]
  rfl

end

/-- The dongle has acted on a request, once or several times in a row. -/
def ActedOn (req : Request) (d d' : Dongle) : Prop :=
  d'.config = req.perform d.config ∧
    ∃ n, d'.acted = d.acted ++ List.replicate (n + 1) req

theorem actedOn_act (req : Request) (d : Dongle) : ActedOn req d (d.act req) :=
  ⟨rfl, 0, rfl⟩

/-- Every request is safe to repeat. -/
theorem perform_perform (req : Request) (cfg : DongleConfig) :
    req.perform (req.perform cfg) = req.perform cfg := by
  cases req <;> rfl

theorem ActedOn.again (h : ActedOn req (d.act req) d') : ActedOn req d d' := by
  obtain ⟨hcfg, n, hacted⟩ := h
  refine ⟨hcfg.trans (perform_perform req d.config), n + 1, ?_⟩
  rw [hacted]
  show (d.acted ++ [req]) ++ List.replicate (n + 1) req = _
  rw [List.append_assoc, List.replicate_succ (n := n + 1)]
  rfl

/-- The loop of `post` returns no error exactly when an attempt is answered 200. -/
theorem postFrom_err :
    (postFrom tries req left attempt d).1 = none ↔ tries.Meet Attempt.Ok left attempt := by
  induction left generalizing attempt d with
  | zero =>
      rw [postFrom, iff_false_right meet_zero]
      exact Option.some_ne_none _
  | succ left ih =>
      rw [postFrom]
      by_cases hon : tries.calledOff attempt = true
      · rw [if_pos hon, iff_false_right (fun h => h.1 hon)]
        exact Option.some_ne_none _
      · rw [if_neg hon]
        cases ha : tries.attempt attempt with
        | unbuilt =>
            rw [meet_settled hon (by rw [ha]; exact id), ha]
            simp [Attempt.Ok]
        | response status acted ok =>
            rw [meet_settled hon (by rw [ha]; exact id), ha]
            simp [Attempt.Ok]
        | transport acted =>
            rw [meet_transport hon ha]
            simp [Attempt.Ok, ih]

/-- It leaves the dongle alone unless an attempt is acted on. -/
theorem postFrom_idle (h : ¬ tries.Meet (·.acted = true) left attempt) :
    (postFrom tries req left attempt d).2 = d := by
  induction left generalizing attempt d with
  | zero => rfl
  | succ left ih =>
      rw [postFrom]
      by_cases hon : tries.calledOff attempt = true
      · rw [if_pos hon]
      · rw [if_neg hon]
        cases ha : tries.attempt attempt with
        | unbuilt => rfl
        | response status acted ok =>
            rw [meet_settled hon (by rw [ha]; exact id), ha] at h
            rw [if_neg h]
        | transport acted =>
            rw [meet_transport hon ha, not_or] at h
            rw [if_neg h.1]
            exact ih h.2

/-- An attempt that is acted on has done the request, and a repetition adds
nothing to it. -/
theorem postFrom_acts (h : tries.Meet (·.acted = true) left attempt) :
    ActedOn req d (postFrom tries req left attempt d).2 := by
  induction left generalizing attempt d with
  | zero => exact absurd h meet_zero
  | succ left ih =>
      rw [postFrom, if_neg h.1]
      cases ha : tries.attempt attempt with
      | unbuilt =>
          rw [meet_settled h.1 (by rw [ha]; exact id), ha] at h
          cases h
      | response status acted ok =>
          rw [meet_settled h.1 (by rw [ha]; exact id), ha] at h
          rw [if_pos h]
          exact actedOn_act req d
      | transport acted =>
          have hnext := (meet_transport h.1 ha).mp h
          by_cases hrest : tries.Meet (·.acted = true) left (attempt + 1)
          · cases acted with
            | false => exact ih hrest
            | true => exact (ih hrest).again
          · rw [if_pos (hnext.resolve_right hrest)]
            show ActedOn req d (postFrom tries req left (attempt + 1) (d.act req)).2
            rw [postFrom_idle hrest]
            exact actedOn_act req d

/-! ## The five POSTs -/

theorem post_err : (post (net req) req d).1 = none ↔ (net req).Succeeds := postFrom_err

theorem post_idle (h : ¬ (net req).Acts) : (post (net req) req d).2 = d := postFrom_idle h

theorem post_acts (h : (net req).Acts) : ActedOn req d (post (net req) req d).2 := postFrom_acts h

theorem postAll_cons :
    postAll net (req :: reqs) d =
      if (post (net req) req d).1 = none then postAll net reqs (post (net req) req d).2
      else post (net req) req d := by
  rw [postAll]
  split
  · next err d' h => simp [h]
  · next d' h => simp [h]

/-- `applyConfig` stops at the first POST that does not succeed. -/
theorem postAll_err : (postAll net reqs d).1 = none ↔ ∀ req ∈ reqs, (net req).Succeeds := by
  induction reqs generalizing d with
  | nil => simp [postAll]
  | cons req reqs ih =>
      rw [postAll_cons, List.forall_mem_cons, ← post_err (d := d)]
      split
      · next h => rw [ih, and_iff_right h]
      · next h => simp only [h, false_and]

/-- Completed, it has written everything it was to write. -/
theorem postAll_config (h : ∀ req ∈ reqs, (net req).Succeeds) :
    (postAll net reqs d).2.config = reqs.foldl (fun cfg req => req.perform cfg) d.config := by
  induction reqs generalizing d with
  | nil => rfl
  | cons req reqs ih =>
      rw [List.forall_mem_cons] at h
      obtain ⟨hcfg, -⟩ := post_acts (d := d) h.1.acts
      rw [postAll_cons, if_pos (post_err.mpr h.1), ih h.2, hcfg]
      rfl

theorem applyConfig_config (h : (applyConfig net cfg d).1 = none) :
    (applyConfig net cfg d).2.config = cfg :=
  postAll_config (postAll_err.mp h)

/-- Nothing a dongle has acted on is forgotten. -/
theorem post_acted {req' : Request} (h : req' ∈ d.acted) :
    req' ∈ (post (net req) req d).2.acted := by
  by_cases hact : (net req).Acts
  · obtain ⟨-, n, hn⟩ := post_acts (d := d) hact
    rw [hn]
    exact List.mem_append_left _ h
  · rwa [post_idle hact]

theorem postAll_acted {req' : Request} (h : req' ∈ d.acted) :
    req' ∈ (postAll net reqs d).2.acted := by
  induction reqs generalizing d with
  | nil => exact h
  | cons req reqs ih =>
      rw [postAll_cons]
      split
      · exact ih (post_acted h)
      · exact post_acted h

/-- A first POST that nobody acts on ends `applyConfig` with nothing done. -/
theorem applyConfig_idle (h : ¬ (net (.setServer cfg.server)).Acts) :
    applyConfig net cfg d = post (net (.setServer cfg.server)) (.setServer cfg.server) d := by
  have herr : ¬ (post (net (.setServer cfg.server)) (.setServer cfg.server) d).1 = none := by
    rw [post_err]
    exact fun hs => h hs.acts
  rw [applyConfig, steps, postAll_cons, if_neg herr]

/-- One that is acted on has changed the dongle, whatever comes of the others. -/
theorem applyConfig_acted (h : (net (.setServer cfg.server)).Acts) :
    .setServer cfg.server ∈ (applyConfig net cfg d).2.acted := by
  have hfirst : .setServer cfg.server ∈
      (post (net (.setServer cfg.server)) (.setServer cfg.server) d).2.acted := by
    obtain ⟨-, n, hn⟩ := post_acts (d := d) h
    rw [hn]
    simp
  rw [applyConfig, steps, postAll_cons]
  split
  · exact postAll_acted hfirst
  · exact hfirst

/-! ## The run -/

/-- The run comes to the point of reconfiguring the dongle, with this address:
the broker has started, the entities are read, and an address is known. -/
def World.Reconfigures (w : World) (ip : Bytes) : Prop :=
  w.brokerStarts = true ∧ (∀ ent, w.readable ent = true) ∧ localIP w = some ip

/-- What is read is what the dongle has. -/
theorem fetchConfig_eq (h : ∀ ent, w.readable ent = true) : fetchConfig w cfg = some cfg := by
  simp only [fetchConfig, World.get, h, if_true, Option.bind_eq_bind, Option.bind_some]

theorem fetchConfig_readable (h : fetchConfig w cfg = some saved) (ent : Entity) :
    w.readable ent = true := by
  simp only [fetchConfig, World.get, Option.bind_eq_bind, Option.bind_eq_some_iff,
    Option.ite_none_right_eq_some] at h
  obtain ⟨_, ⟨hserver, -⟩, _, ⟨hport, -⟩, _, ⟨htls, -⟩, _, ⟨hcloud, -⟩, -⟩ := h
  cases ent with
  | mqttServer => exact hserver
  | mqttPort => exact hport
  | tls => exact htls
  | cloud => exact hcloud

/-- `autoReconfigure` gets as far as `applyConfig`, or does nothing at all. -/
theorem autoReconfigure_untouched (hb : w.brokerStarts = true) (h : ∀ ip, ¬ w.Reconfigures ip) :
    autoReconfigure w d = (none, d) := by
  rw [autoReconfigure]
  split
  · rfl
  · next saved hsaved =>
      split
      · rfl
      · next ip hip => exact absurd ⟨hb, fetchConfig_readable hsaved, hip⟩ (h ip)

theorem autoReconfigure_failed (hr : w.Reconfigures ip)
    (h : (applyConfig w.reconfiguring (target w ip) d).1 ≠ none) :
    autoReconfigure w d = (none, (applyConfig w.reconfiguring (target w ip) d).2) := by
  simp only [autoReconfigure, fetchConfig_eq hr.2.1, hr.2.2]
  split
  · next err d' happ => rw [happ]
  · next d' happ => exact absurd (congrArg Prod.fst happ) h

theorem autoReconfigure_succeeded (hr : w.Reconfigures ip)
    (h : (applyConfig w.reconfiguring (target w ip) d).1 = none) :
    autoReconfigure w d =
      (some d.config, (applyConfig w.reconfiguring (target w ip) d).2) := by
  simp only [autoReconfigure, fetchConfig_eq hr.2.1, hr.2.2]
  split
  · next err d' happ => rw [happ] at h; cases h
  · next d' happ => rw [happ]

theorem restoreOnce_spent (w : World) (s : Session) : (restoreOnce w s).spent = true := by
  rw [restoreOnce]
  split
  · next h => exact h
  · split <;> rfl

/-- The second time it does nothing. -/
theorem restoreOnce_restoreOnce (w : World) (s : Session) :
    restoreOnce w (restoreOnce w s) = restoreOnce w s := by
  rw [restoreOnce, if_pos (restoreOnce_spent w s)]

/-- `autoReconfigure` has returned an error: there is nothing to restore. -/
theorem run_none (hb : w.brokerStarts = true)
    (h : autoReconfigure w { config := cfg } = (none, d)) :
    (run w cfg).2.dongle = d ∧ (run w cfg).2.restores = [] := by
  simp only [run, hb, h]
  exact ⟨rfl, rfl⟩

/-- It has returned a restore function: every way out of `run` has called it once. -/
theorem run_some (hb : w.brokerStarts = true)
    (h : autoReconfigure w { config := cfg } = (some saved, d)) :
    (run w cfg).2 = restoreOnce w { dongle := d, restore := some saved } := by
  simp only [run, hb, h]
  split
  · next hf => cases hf
  · split
    · rfl
    · split
      · exact restoreOnce_restoreOnce w { dongle := d, restore := some saved }
      · exact restoreOnce_restoreOnce w { dongle := d, restore := some saved }

theorem run_untouched (h : ∀ ip, ¬ w.Reconfigures ip) :
    (run w cfg).2.dongle = { config := cfg } := by
  cases hb : w.brokerStarts with
  | false => simp only [run, hb, if_true]
  | true => exact (run_none hb (autoReconfigure_untouched hb h)).1

/-! ## The condition -/

/-- If the dongle acted on a POST that sets an entity, exactly one restore was
started, with the configuration read at the start; and if that came to its end,
the dongle has this configuration. -/
def Restores (w : World) (cfg : DongleConfig) : Prop :=
  let s := (run w cfg).2
  (∃ req ∈ s.dongle.acted, req.setsEntity = true) →
    ∃ saved err, fetchConfig w cfg = some saved ∧ s.restores = [(saved, err)] ∧
      (err = none → s.dongle.config = saved)

theorem restores_of_untouched (h : (run w cfg).2.dongle.acted = []) : Restores w cfg := by
  intro ⟨req, hmem, _⟩
  rw [h] at hmem
  cases hmem

/-- busscan restores what it has changed exactly when the whole reconfiguration
succeeds, or already the first POST of it is never acted on. -/
theorem restores_iff (w : World) (cfg : DongleConfig) :
    Restores w cfg ↔
      ∀ ip, w.Reconfigures ip →
        (∀ req ∈ steps (target w ip), (w.reconfiguring req).Succeeds) ∨
          ¬ (w.reconfiguring (.setServer ip)).Acts := by
  constructor
  · intro h ip hr
    by_cases hall : ∀ req ∈ steps (target w ip), (w.reconfiguring req).Succeeds
    · exact .inl hall
    · refine .inr fun hact => ?_
      have herr : (applyConfig w.reconfiguring (target w ip) { config := cfg }).1 ≠ none :=
        fun hn => hall (postAll_err.mp hn)
      obtain ⟨hdongle, hnone⟩ := run_none hr.1 (autoReconfigure_failed hr herr)
      have hacted : Request.setServer ip ∈ (run w cfg).2.dongle.acted := by
        rw [hdongle]
        exact applyConfig_acted hact
      obtain ⟨saved, err, -, hsome, -⟩ := h ⟨_, hacted, rfl⟩
      rw [hnone] at hsome
      cases hsome
  · intro h
    by_cases hreach : ∃ ip, w.Reconfigures ip
    · obtain ⟨ip, hr⟩ := hreach
      rcases h ip hr with hall | hidle
      · have hok : (applyConfig w.reconfiguring (target w ip) { config := cfg }).1 = none :=
          postAll_err.mpr hall
        have hs := run_some hr.1 (autoReconfigure_succeeded hr hok)
        intro _
        refine ⟨cfg, _, fetchConfig_eq hr.2.1, by rw [hs]; rfl, ?_⟩
        intro hdone
        rw [hs]
        exact applyConfig_config hdone
      · refine restores_of_untouched ?_
        have happ : applyConfig w.reconfiguring (target w ip) { config := cfg } =
            post (w.reconfiguring (.setServer ip)) (.setServer ip) { config := cfg } :=
          applyConfig_idle hidle
        have herr : (applyConfig w.reconfiguring (target w ip) { config := cfg }).1 ≠ none := by
          rw [happ]
          exact fun hn => hidle (post_err.mp hn).acts
        rw [(run_none hr.1 (autoReconfigure_failed hr herr)).1, happ]
        exact congrArg Dongle.acted (post_idle hidle)
    · refine restores_of_untouched ?_
      rw [run_untouched fun ip hr => hreach ⟨ip, hr⟩]

/-- Ctrl-C between the first POST and the second: the request that is under way
fails, and so does the wait for another. -/
def interrupted : World where
  ipOverride := text "192.168.1.20"
  reconfiguring req :=
    match req with
    | .setServer _ => { attempt := fun _ => .response 200 true fun _ => rfl }
    | _ => { attempt := fun _ => .transport false, cancelled := fun _ => true }
  restoring _ := { attempt := fun _ => .response 200 true fun _ => rfl }

/-- The settings of a dongle that works with the cloud. -/
def cloudConfig : DongleConfig :=
  { server := text "gbboptimizer2-mqtt.gbbsoft.pl", port := 8883, tls := true, cloud := true }

/-- It is left with the address of the laptop, and nobody tried to restore it. -/
theorem interrupted_not_restored : ¬ Restores interrupted cloudConfig := by
  intro h
  obtain ⟨saved, err, -, hsome, -⟩ :=
    h ⟨.setServer (text "192.168.1.20"), by decide +kernel, rfl⟩
  have hnone : (run interrupted cloudConfig).2.restores = [] := by decide +kernel
  rw [hnone] at hsome
  cases hsome

end Gbb.Busscan
