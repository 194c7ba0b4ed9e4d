import GbbDongle.Lib.Mailbox
import GbbDongle.Proofs.Bench
import GbbDongle.Proofs.Events
import GbbDongle.Proofs.Protocol

/-!
# What becomes of a cloud request

A request passes through two places that hold one thing. `pending_request_`
holds the newest request that was accepted, until the executor is free; the
executor holds the request it works on, until its result is polled, and in
between it may hold the header of an emergency set, which is none of the
cloud's business. Each place has its history, read off the events of a run, and
the histories are those of a mailbox: a newer request may replace a pending
one, nothing replaces a request the executor has started.
-/

namespace Gbb

open History Mailbox EmergencyManager ModbusExecutor

variable {P : Platform} {c : Config} {m : Moment} {es : List Moment} {w : World}

/-! ## The pending slot -/

def pendingOp : Event → Option (Op GbbHeader GbbHeader)
  | .accepted header => some (.put header)
  | .started header => some (.take header)
  | _ => none

/-- The requests accepted and started, in order. -/
def pendingOps (es : List Moment) : List (Op GbbHeader GbbHeader) :=
  (es.flatMap Move.evs).filterMap pendingOp

theorem pendingOps_snoc : pendingOps (es ++ [m]) = pendingOps es ++ m.evs.filterMap pendingOp := by
  rw [pendingOps, pendingOps, List.flatMap_append, List.filterMap_append, List.flatMap_singleton]

theorem filterMap_pendingOp_of_kind {evs : List Event} (h : ∀ ev ∈ evs, ev.kind ≠ .cloud) :
    evs.filterMap pendingOp = [] := by
  rw [List.filterMap_eq_nil_iff]
  intro ev hev
  have hk := h ev hev
  cases ev <;> first | rfl | exact absurd rfl hk

/-- What a step is to the pending slot. -/
inductive PendingCase (m : Moment) : Prop
  | still (ops : m.evs.filterMap pendingOp = []) (pending : m.post.pending = m.pre.pending)
  | accepted (header : GbbHeader) (ops : m.evs.filterMap pendingOp = [.put header])
      (pending : m.post.pending = some header)
  | started (header : GbbHeader) (ops : m.evs.filterMap pendingOp = [.take header])
      (waiting : m.pre.pending = some header) (pending : m.post.pending = none)

theorem StepCase.pending (hm : StepCase P c m) : PendingCase m := by
  cases hm with
  | quiet b executor manager pending flash evs =>
      refine .still (filterMap_pendingOp_of_kind fun ev hev => ?_) pending
      rcases evs ev hev with rfl | rfl <;> nofun
  | message payload wall o header act parsed executor manager pending flash persist evs =>
      refine .accepted header ?_ pending
      rw [evs, List.filterMap_append, filterMap_pendingOp_of_kind fun ev hev => ?_]
      · rfl
      · rcases handleFields_kind hev with h | h
        all_goals
          rw [h]
          decide
  | toggled on o act executor manager pending flash persist evs =>
      refine .still (filterMap_pendingOp_of_kind fun ev hev => ?_) pending
      rw [nvs_kind (EmergencyStore.setPersistEnabled_isNvs (evs ▸ hev))]
      nofun
  | handled t info wait o act result emergency executor manager pending flash persist evs =>
      refine .still (filterMap_pendingOp_of_kind fun ev hev => ?_) pending
      rw [evs] at hev
      rcases handleResult_kind hev with h | h
      all_goals
        rw [h]
        decide
  | finished info wait o act result emergency executor manager pending flash evs =>
      refine .still ?_ pending
      rw [evs]
      cases chooseResponse P c m.pre.executor.header info
        (takeLastLog m.pre.executor.header m.pre.dongle.logBuffer).1 <;> rfl
  | handed t key lines free queued next executor manager pending flash evs =>
      refine .still ?_ pending
      rw [evs, List.filterMap_cons, filterMap_pendingOp_of_kind fun ev hev => ?_]
      · rfl
      · rw [(start_kind hev).1]
        nofun
  | strayed free queued next executor manager pending flash evs =>
      exact .still (by rw [evs]; rfl) pending
  | started t header free queued waiting executor manager pending flash evs =>
      refine .started header ?_ waiting pending
      rw [evs, List.filterMap_cons, filterMap_pendingOp_of_kind fun ev hev => ?_]
      · rfl
      · rw [(start_kind hev).1]
        nofun
  | executed rx wait₁ wait₂ wait₃ t₁ t₂ t₃ act executor manager pending flash evs =>
      refine .still (filterMap_pendingOp_of_kind fun ev hev => ?_) pending
      rw [loop_kind (evs ▸ hev)]
      nofun
  | checked wait₁ wait₂ t wall lastCheck act due executor check pending =>
      refine .still (filterMap_pendingOp_of_kind fun ev hev => ?_) pending
      rw [check_kind check hev]
      nofun

/-- The pending slot is a mailbox with overwriting. -/
theorem Runs.pendingOps {b : BootInput} (h : Runs P c (setup P b).1 es w) :
    Lawful Eq true (pendingOps es) ∧ slot (pendingOps es) = w.pending := by
  refine h.guarded.history (H := fun es w => Lawful Eq true (Gbb.pendingOps es) ∧
    slot (Gbb.pendingOps es) = w.pending) ⟨.nil, rfl⟩ ?_
  intro es m _ ⟨hlawful, hslot⟩ hm
  rw [pendingOps_snoc]
  cases hm.1.pending with
  | still ops pending =>
      rw [ops, List.append_nil, pending]
      exact ⟨hlawful, hslot⟩
  | accepted header ops pending =>
      rw [ops, slot_put, pending]
      exact ⟨hlawful.snoc (.inl rfl), rfl⟩
  | started header ops waiting pending =>
      rw [ops, slot_take, pending]
      exact ⟨hlawful.snoc ⟨header, hslot.trans waiting, rfl⟩, rfl⟩

/-! ## The response -/

/-- The choice between the text with the log, the text without it, and none. -/
theorem chooseResponse_case (P : Platform) (c : Config) (header : GbbHeader) (info : Bytes)
    (lastLog : Option Bytes) :
    match chooseResponse P c header info lastLog with
    | some response => ∃ log, response = P.serialize (responseDoc header c.identity info log) ∧
        response.length < jsonBuildTruncatedSize
    | none => jsonBuildTruncatedSize ≤
        (P.serialize (responseDoc header c.identity info none)).length := by
  have hfits : ∀ log, (buildResponse P header c.identity info log).length < jsonBuildTruncatedSize →
      buildResponse P header c.identity info log =
        P.serialize (responseDoc header c.identity info log) := fun log h =>
    P.buildJson_complete (P.buildJson_short.mp h)
  have hlong : jsonBuildTruncatedSize ≤ (buildResponse P header c.identity info none).length →
      jsonBuildTruncatedSize ≤ (P.serialize (responseDoc header c.identity info none)).length :=
    fun h => Nat.le_of_not_lt fun hlt => Nat.not_le_of_lt (P.buildJson_short.mpr hlt) h
  simp only [chooseResponse]
  by_cases hlog : jsonBuildTruncatedSize ≤
      (buildResponse P header c.identity info lastLog).length ∧ lastLog.isSome = true
  · rw [if_pos hlog]
    by_cases hl : jsonBuildTruncatedSize ≤ (buildResponse P header c.identity info none).length
    · rw [if_pos hl]
      exact hlong hl
    · rw [if_neg hl]
      rw [Nat.not_le] at hl
      exact ⟨none, hfits none hl, hl⟩
  · rw [if_neg hlog]
    by_cases hl : jsonBuildTruncatedSize ≤ (buildResponse P header c.identity info lastLog).length
    · rw [if_pos hl]
      have hnone : lastLog = none := by
        rw [not_and, Bool.not_eq_true, Option.isSome_eq_false_iff,
          Option.isNone_iff_eq_none] at hlog
        exact hlog hl
      rw [hnone] at hl
      exact hlong hl
    · rw [if_neg hl]
      rw [Nat.not_le] at hl
      exact ⟨lastLog, hfits lastLog hl, hl⟩

/-! ## The executor's desk -/

def startedHeader : Event → Option GbbHeader
  | .started header => some header
  | _ => none

def acceptedHeaderOf : Event → Option GbbHeader
  | .accepted header => some header
  | _ => none

def finishedHeader : Event → Option GbbHeader
  | .finished header => some header
  | _ => none

def publishedPayload : Event → Option Bytes
  | .published payload => some payload
  | _ => none

/-- A cloud request that has finished: the header as the executor leaves it,
the `ClientInfo` of the moment, and the payload of the `fromDevice` publish call
it led to, if any. -/
structure Answer where
  header : GbbHeader
  clientInfo : Bytes
  payload : Option Bytes

def clientInfo (m : Moment) : Bytes :=
  match m.act with
  | .poll _ info _ => info
  | _ => []

/-- The cloud request whose result is taken in a step. -/
def answer (m : Moment) : Option Answer :=
  (m.evs.findSome? finishedHeader).map fun header =>
    ⟨header, clientInfo m, m.evs.findSome? publishedPayload⟩

/-- The cloud requests accepted, in order of arrival. -/
def acceptedHeaders (es : List Moment) : List GbbHeader :=
  (es.flatMap Move.evs).filterMap acceptedHeaderOf

/-- The cloud requests handed to the executor, in order. -/
def startedHeaders (es : List Moment) : List GbbHeader :=
  (es.flatMap Move.evs).filterMap startedHeader

/-- The cloud requests that finished, in order. -/
def answers (es : List Moment) : List Answer := es.filterMap answer

/-- The payloads of the `fromDevice` publish calls, in order. -/
def publishedPayloads (es : List Moment) : List Bytes :=
  (es.flatMap Move.evs).filterMap publishedPayload

/-- What the firmware owes a started cloud request when it finishes: one
complete document that answers it, or nothing if even the document without the
log would be too long. -/
structure AnsweredBy (P : Platform) (c : Config) (request : GbbHeader) (result : Answer) :
    Prop where
  cloud : request.emergency = false
  published : ∀ payload, result.payload = some payload → ∃ log,
    payload = P.serialize (responseDoc result.header c.identity result.clientInfo log) ∧
      payload.length < jsonBuildTruncatedSize ∧
      Answers request (responseDoc result.header c.identity result.clientInfo log)
  dropped : result.payload = none → jsonBuildTruncatedSize ≤
    (P.serialize (responseDoc result.header c.identity result.clientInfo none)).length

theorem Answers.sameRequest {request header : GbbHeader} {doc : Json} (h : Answers header doc)
    (hs : SameRequest request header) : Answers request doc := by
  have hid : header.hasOrderId = request.hasOrderId ∧ header.orderId = request.orderId :=
    ⟨by simpa using congrArg GbbHeader.hasOrderId hs.fields,
      by simpa using congrArg GbbHeader.orderId hs.fields⟩
  refine ⟨?_, ?_⟩
  · rw [h.orderId, hid.1, hid.2]
  · have hechoes := congrArg (List.map echoed) hs.echoes
    rw [List.map_map, List.map_map] at hechoes
    exact h.lines.trans hechoes

def deskOps (m : Moment) : List (Op GbbHeader Answer) :=
  (m.evs.filterMap startedHeader).map .put ++ (answer m).toList.map .take

/-- The executor works on this request. -/
structure InHand (request : GbbHeader) (e : ModbusExecutor) : Prop where
  state : e.state ≠ .idle
  cloud : request.emergency = false
  same : SameRequest request e.header

/-- The executor works on no request of the cloud. -/
def OffDesk (e : ModbusExecutor) : Prop := e.state = .idle ∨ e.header.emergency = true

theorem InHand.not_offDesk {request : GbbHeader} {e : ModbusExecutor} (h : InHand request e) :
    ¬ OffDesk e := by
  rintro (hi | he)
  · exact h.state hi
  · rw [h.same.emergency, h.cloud] at he
    cases he

inductive DeskCase (P : Platform) (c : Config) (m : Moment) : Prop
  | still (ops : deskOps m = []) (published : m.evs.filterMap publishedPayload = [])
      (kept : ∀ request, InHand request m.pre.executor → InHand request m.post.executor)
      (off : OffDesk m.pre.executor → OffDesk m.post.executor)
  | started (header : GbbHeader) (ops : deskOps m = [.put header])
      (published : m.evs.filterMap publishedPayload = []) (free : OffDesk m.pre.executor)
      (taken : InHand header m.post.executor)
  | answered (result : Answer) (ops : deskOps m = [.take result])
      (published : m.evs.filterMap publishedPayload = result.payload.toList)
      (busy : ¬ OffDesk m.pre.executor)
      (owed : ∀ request, InHand request m.pre.executor → AnsweredBy P c request result)
      (free : OffDesk m.post.executor)

/-- Events that neither start nor finish a request. -/
theorem noDesk_of_kind (evs : List Event)
    (h : ∀ ev ∈ evs, ev.kind ≠ .cloud ∨ ∃ header, ev = .accepted header) :
    evs.filterMap startedHeader = [] ∧ evs.findSome? finishedHeader = none ∧
      evs.filterMap publishedPayload = [] := by
  rw [List.filterMap_eq_nil_iff, List.findSome?_eq_none_iff, List.filterMap_eq_nil_iff,
    ← forall₂_and, ← forall₂_and]
  intro ev hev
  rcases h ev hev with hk | ⟨header, rfl⟩
  · cases ev <;> first | exact ⟨rfl, rfl, rfl⟩ | exact absurd rfl hk
  · exact ⟨rfl, rfl, rfl⟩

/-- A step without such an event, that leaves the executor on the same job. -/
theorem DeskCase.quiet (h : ∀ ev ∈ m.evs, ev.kind ≠ .cloud ∨ ∃ header, ev = .accepted header)
    (kept : ∀ request, InHand request m.pre.executor → InHand request m.post.executor)
    (off : OffDesk m.pre.executor → OffDesk m.post.executor) : DeskCase P c m := by
  obtain ⟨hstarted, hfinished, hpublished⟩ := noDesk_of_kind m.evs h
  refine .still ?_ hpublished kept off
  rw [deskOps, answer, hstarted, hfinished]
  rfl

/-- The executor is as it was, up to its baud rate hint. -/
theorem DeskCase.same {b : UInt32}
    (h : ∀ ev ∈ m.evs, ev.kind ≠ .cloud ∨ ∃ header, ev = .accepted header)
    (heq : m.post.executor = { m.pre.executor with baudRateHint := b }) : DeskCase P c m := by
  refine .quiet h (fun request hr => ?_) fun ho => ?_
  · rw [heq]
    exact ⟨hr.state, hr.cloud, hr.same⟩
  · rw [heq]
    exact ho

/-- A request is taken by an idle executor. -/
theorem DeskCase.taken {t : Nat} {header : GbbHeader} (idle : m.pre.executor.state = .idle)
    (cloud : header.emergency = false)
    (executor : m.post.executor = (m.pre.executor.start t header).1)
    (evs : m.evs = .started header :: (m.pre.executor.start t header).2) : DeskCase P c m := by
  obtain ⟨hstarted, hfinished, hpublished⟩ := noDesk_of_kind (m.pre.executor.start t header).2
    fun ev hev => .inl (by rw [(start_kind hev).1]; nofun)
  refine .started header ?_ ?_ (.inl idle) ⟨?_, cloud, ?_⟩
  · have hput : m.evs.filterMap startedHeader = [header] := by
      rw [evs]
      exact congrArg (header :: ·) hstarted
    have hnone : m.evs.findSome? finishedHeader = none := by
      rw [evs]
      exact hfinished
    rw [deskOps, answer, hput, hnone]
    rfl
  · rw [evs]
    exact hpublished
  · rw [executor]
    rcases start_state t header m.pre.executor with h | h <;> rw [h] <;> nofun
  · rw [executor]
    exact start_sameRequest t header m.pre.executor

/-- Its result is answered, or dropped where even the shorter response is too long. -/
theorem DeskCase.finished {wait : Nat} {info : Bytes} {o : NvsOutcome}
    (act : m.act = .poll wait info o) (result : m.pre.executor.state = .done)
    (emergency : m.pre.executor.header.emergency = false)
    (executor : m.post.executor = m.pre.executor.takeResult.2)
    (evs : m.evs = .finished m.pre.executor.header ::
      ((chooseResponse P c m.pre.executor.header info
        (takeLastLog m.pre.executor.header m.pre.dongle.logBuffer).1).map
          Event.published).toList) : DeskCase P c m := by
  have hchoice := chooseResponse_case P c m.pre.executor.header info
    (takeLastLog m.pre.executor.header m.pre.dongle.logBuffer).1
  have hbusy : ¬ OffDesk m.pre.executor := by
    rintro (hi | he)
    · rw [result] at hi
      cases hi
    · rw [emergency] at he
      cases he
  have hfree : OffDesk m.post.executor := by
    rw [executor]
    exact .inl rfl
  cases hc : chooseResponse P c m.pre.executor.header info
      (takeLastLog m.pre.executor.header m.pre.dongle.logBuffer).1 with
  | none =>
      rw [hc] at evs hchoice
      refine .answered ⟨m.pre.executor.header, info, none⟩ ?_ ?_ hbusy (fun request hr => ?_) hfree
      · rw [deskOps, answer, clientInfo, act, evs]
        rfl
      · rw [evs]
        rfl
      · exact ⟨hr.cloud, nofun, fun _ => hchoice⟩
  | some response =>
      rw [hc] at evs hchoice
      obtain ⟨log, hresponse, hlen⟩ := hchoice
      refine .answered ⟨m.pre.executor.header, info, some response⟩ ?_ ?_ hbusy
        (fun request hr => ?_) hfree
      · rw [deskOps, answer, clientInfo, act, evs]
        rfl
      · rw [evs]
        rfl
      · refine ⟨hr.cloud, fun payload hp => ?_, nofun⟩
        obtain rfl : response = payload := Option.some.inj hp
        exact ⟨log, hresponse, hlen, (responseDoc_answers _ _ _ _).sameRequest hr.same⟩

theorem StepCase.desk (hm : StepCase P c m) (hw : Sound m.pre) : DeskCase P c m := by
  cases hm with
  | quiet b executor manager pending flash evs =>
      refine .same (fun ev hev => .inl ?_) executor
      rcases evs ev hev with rfl | rfl <;> nofun
  | message payload wall o header act parsed executor manager pending flash persist evs =>
      refine .same (b := m.pre.executor.baudRateHint) (fun ev hev => ?_) executor
      rw [evs] at hev
      rcases List.mem_append.mp hev with hev | hev
      · rcases handleFields_kind hev with h | h
        · exact .inl (by rw [h]; decide)
        · exact .inl (by rw [h]; decide)
      · exact .inr ⟨header, List.mem_singleton.mp hev⟩
  | toggled on o act executor manager pending flash persist evs =>
      refine .same (b := m.pre.executor.baudRateHint) (fun ev hev => .inl ?_) executor
      rw [nvs_kind (EmergencyStore.setPersistEnabled_isNvs (evs ▸ hev))]
      nofun
  | handled t info wait o act result emergency executor manager pending flash persist evs =>
      refine .quiet (fun ev hev => .inl ?_) (fun request hr => ?_) fun _ => ?_
      · rw [evs] at hev
        rcases handleResult_kind hev with h | h
        all_goals
          rw [h]
          decide
      · exact absurd (.inr emergency) hr.not_offDesk
      · rw [executor]
        exact .inl rfl
  | finished info wait o act result emergency executor manager pending flash evs =>
      exact .finished act result emergency executor evs
  | handed t key lines free queued next executor manager pending flash evs stage =>
      refine .quiet (fun ev hev => .inl ?_) (fun request hr => ?_) fun _ => ?_
      · rw [evs] at hev
        rcases List.mem_cons.mp hev with rfl | hev
        · nofun
        · rw [(start_kind hev).1]
          nofun
      · exact absurd (hw.idle_of_free stage.1 free) hr.state
      · rw [executor, OffDesk, (start_sameRequest t _ _).emergency]
        exact .inr rfl
  | strayed free queued next executor manager pending flash evs =>
      exact .same (b := m.pre.executor.baudRateHint)
        (by rw [evs]; exact fun ev hev => absurd hev List.not_mem_nil) executor
  | started t header free queued waiting executor manager pending flash evs stage =>
      exact .taken (hw.idle_of_free stage.1 free) (hw.cloud header waiting) executor evs
  | executed rx wait₁ wait₂ wait₃ t₁ t₂ t₃ act executor manager pending flash evs =>
      have hsame := loop_sameRequest c.bus rx t₁ t₂ t₃ m.pre.executor
      have hidle := loop_state_idle c.bus rx t₁ t₂ t₃ m.pre.executor
      rw [← executor] at hsame hidle
      refine .quiet (fun ev hev => .inl ?_) (fun request hr => ?_) fun ho => ?_
      · rw [loop_kind (evs ▸ hev)]
        nofun
      · exact ⟨fun hi => hr.state (hidle.mp hi), hr.cloud, hr.same.trans hsame⟩
      · rw [OffDesk, hidle, hsame.emergency]
        exact ho
  | checked wait₁ wait₂ t wall lastCheck act due executor check =>
      refine .same (b := m.pre.executor.baudRateHint) (fun ev hev => .inl ?_) executor
      rw [check_kind check hev]
      nofun

/-- The history of the desk, and what it says about the executor. -/
structure Desk (P : Platform) (c : Config) (l : List (Op GbbHeader Answer))
    (e : ModbusExecutor) : Prop where
  lawful : Lawful (AnsweredBy P c) false l
  inHand : ∀ request, slot l = some request → InHand request e
  offDesk : slot l = none → OffDesk e

theorem Desk.busy {l : List (Op GbbHeader Answer)} {e : ModbusExecutor}
    (h : Desk P c l e) (hb : ¬ OffDesk e) :
    ∃ request, slot l = some request ∧ InHand request e := by
  cases hs : slot l with
  | none => exact absurd (h.offDesk hs) hb
  | some request => exact ⟨request, rfl, h.inHand request hs⟩

theorem Desk.free {l : List (Op GbbHeader Answer)} {e : ModbusExecutor}
    (h : Desk P c l e) (hf : OffDesk e) : slot l = none := by
  cases hs : slot l with
  | none => rfl
  | some request => exact absurd hf (h.inHand request hs).not_offDesk

/-- The executor's desk is a mailbox that is never overwritten. -/
theorem Desk.step {l : List (Op GbbHeader Answer)}
    (h : Desk P c l m.pre.executor) (hm : DeskCase P c m) :
    Desk P c (l ++ deskOps m) m.post.executor := by
  cases hm with
  | still ops _ kept off =>
      rw [ops, List.append_nil]
      exact ⟨h.lawful, fun request hs => kept request (h.inHand request hs),
        fun hs => off (h.offDesk hs)⟩
  | started header ops _ free taken =>
      rw [ops]
      refine ⟨h.lawful.snoc (.inr (h.free free)), fun request hs => ?_, fun hs => ?_⟩
      · rw [slot_put] at hs
        exact Option.some.inj hs ▸ taken
      · rw [slot_put] at hs
        cases hs
  | answered result ops _ busy owed free =>
      obtain ⟨request, hs, hr⟩ := h.busy busy
      rw [ops]
      refine ⟨h.lawful.snoc ⟨request, hs, owed request hr⟩, fun request hs => ?_, fun _ => free⟩
      rw [slot_take] at hs
      cases hs

theorem Runs.desk {b : BootInput} (h : Runs P c (setup P b).1 es w) :
    Desk P c (es.flatMap deskOps) w.executor := by
  refine h.guarded.history (H := fun es w => Desk P c (es.flatMap deskOps) w.executor)
    ⟨.nil, nofun, fun _ => .inl rfl⟩ fun es m _ ih hm => ?_
  rw [List.flatMap_append, List.flatMap_singleton]
  exact ih.step (hm.1.desk hm.2.1)

/-! ## The accounts -/

theorem puts_pendingOps (es : List Moment) : puts (pendingOps es) = acceptedHeaders es := by
  rw [puts, pendingOps, List.filterMap_filterMap]
  exact List.filterMap_congr fun ev _ => by cases ev <;> rfl

theorem takes_pendingOps (es : List Moment) : takes (pendingOps es) = startedHeaders es := by
  rw [takes, pendingOps, List.filterMap_filterMap]
  exact List.filterMap_congr fun ev _ => by cases ev <;> rfl

theorem puts_deskOps (es : List Moment) : puts (es.flatMap deskOps) = startedHeaders es := by
  induction es with
  | nil => rfl
  | cons m es ih =>
      rw [List.flatMap_cons, puts_append, ih, startedHeaders, startedHeaders, List.flatMap_cons,
        List.filterMap_append]
      refine congrArg (· ++ _) ?_
      simp [deskOps]

theorem takes_deskOp (m : Moment) : takes (deskOps m) = (answer m).toList := by
  simp [deskOps]

theorem takes_deskOps (es : List Moment) : takes (es.flatMap deskOps) = answers es := by
  induction es with
  | nil => rfl
  | cons m es ih =>
      rw [List.flatMap_cons, takes_append, ih, takes_deskOp, answers, answers, List.filterMap_cons]
      cases answer m <;> rfl

/-- A step publishes what it answers with. -/
theorem DeskCase.publishes (hm : DeskCase P c m) :
    m.evs.filterMap publishedPayload = (answer m).toList.filterMap Answer.payload := by
  rw [← takes_deskOp]
  cases hm with
  | still ops published => rw [ops, published]; rfl
  | started header ops published => rw [ops, published]; rfl
  | answered result ops published =>
      rw [ops, published, takes_take]
      cases h : result.payload with
      | none => simp [h]
      | some payload => simp [h]

theorem Runs.publishes {b : BootInput} (h : Runs P c (setup P b).1 es w) :
    publishedPayloads es = (answers es).filterMap Answer.payload := by
  refine h.guarded.history
    (H := fun es _ => publishedPayloads es = (answers es).filterMap Answer.payload) rfl
    fun es m _ ih hm => ?_
  rw [publishedPayloads, List.flatMap_append, List.filterMap_append, List.flatMap_singleton,
    (hm.1.desk hm.2.1).publishes, answers, List.filterMap_append, List.filterMap_append]
  refine congrArg₂ (· ++ ·) ih (congrArg (List.filterMap Answer.payload) ?_)
  rw [List.filterMap_cons]
  cases answer m <;> rfl

/-- Every cloud request is accounted for. -/
structure RequestsAccounted (P : Platform) (c : Config) (es : List Moment) (w : World) : Prop where
  /-- A payload that is too long or cannot be parsed is counted and forgotten. -/
  rejected : ∀ m ∈ es, ∀ payload wall o, m.act = .message payload wall o →
    maxToDevicePayload < payload.length ∨ parseHeader P payload = none →
    m.evs = [] ∧ m.post = { m.pre with
      dongle := { m.pre.dongle with requestsReceived := m.pre.dongle.requestsReceived + 1 } }
  /-- Any other payload is counted, and its header is pending from then on. -/
  taken : ∀ m ∈ es, ∀ payload wall o header, m.act = .message payload wall o →
    payload.length ≤ maxToDevicePayload → parseHeader P payload = some header →
    m.post.pending = some header ∧
      m.post.dongle.requestsReceived = m.pre.dongle.requestsReceived + 1
  /-- The requests accepted are the headers of these payloads, and no others. -/
  arrivals : acceptedHeaders es = es.filterMap (arrived P)
  /-- A start takes the pending request to an idle executor. -/
  starts : ∀ m ∈ es, ∀ header, .started header ∈ m.evs → m.pre.executor.state = .idle ∧
    m.pre.pending = some header ∧ m.post.pending = none ∧
    ∃ t, m.post.executor = (m.pre.executor.start t header).1
  /-- Requests are started in the order of arrival, each at most once. -/
  order : (startedHeaders es).Sublist (acceptedHeaders es)
  /-- A request that is started was the last to be accepted. -/
  origin : ∀ before header after, pendingOps es = before ++ .take header :: after →
    ∃ earlier, before = earlier ++ [.put header]
  /-- A request that is accepted is pending at the end, or started, or replaced. -/
  fate : ∀ before header after, pendingOps es = before ++ .put header :: after →
    (after = [] ∧ w.pending = some header) ∨ (∃ later, after = .take header :: later) ∨
      ∃ newer later, after = .put newer :: later
  /-- The requests that were started have been answered one by one, in the order
  of their start, but for one that may be under way. -/
  answered : ∃ done underway, startedHeaders es = done ++ underway ∧ underway.length ≤ 1 ∧
    List.Forall₂ (AnsweredBy P c) done (answers es)
  /-- Nothing else is published. -/
  published : publishedPayloads es = (answers es).filterMap Answer.payload

theorem acceptedHeader_eq_none {payload : Bytes} : acceptedHeader P payload = none ↔
    maxToDevicePayload < payload.length ∨ parseHeader P payload = none := by
  rw [acceptedHeader]
  split
  next hlong => simp only [hlong, true_or]
  next hlong => simp only [hlong, false_or]

theorem acceptedHeader_eq_some {payload : Bytes} {header : GbbHeader} :
    acceptedHeader P payload = some header ↔
      payload.length ≤ maxToDevicePayload ∧ parseHeader P payload = some header := by
  rw [acceptedHeader, ← Nat.not_lt]
  split
  next hlong => simp [hlong]
  next hlong => simp only [hlong, not_false_eq_true, true_and]

theorem arrived_iff {header : GbbHeader} : arrived P m = some header ↔
    ∃ payload wall o, m.act = .message payload wall o ∧
      acceptedHeader P payload = some header := by
  rw [arrived]
  constructor
  · intro h
    split at h
    next payload wall o hact => exact ⟨payload, wall, o, hact, h⟩
    next => cases h
  · rintro ⟨payload, wall, o, hact, hacc⟩
    rw [hact]
    exact hacc

theorem Step.rejected (h : Step P c m) {payload : Bytes} {wall : ESPTime} {o : NvsOutcome}
    (hact : m.act = .message payload wall o) (hnone : acceptedHeader P payload = none) :
    m.evs = [] ∧ m.post = { m.pre with
      dongle := { m.pre.dongle with requestsReceived := m.pre.dongle.requestsReceived + 1 } } := by
  obtain ⟨hfits, hpost⟩ := h
  rw [hact] at hfits hpost
  have hstage : m.pre.stage = .outside := by simpa [Act.fits] using hfits
  simp only [Act.perform, Act.run, onCloudMessage, hnone, Prod.mk.injEq] at hpost
  refine ⟨hpost.2, hpost.1.trans ?_⟩
  show ({ m.pre with
      dongle := _, stage := (Act.message payload wall o).next m.pre.stage } : World) = _
  rw [show (Act.message payload wall o).next m.pre.stage = m.pre.stage from hstage.symm]

/-- An accepted message counts, and leaves its header pending and one event of it. -/
theorem Step.taken (h : Step P c m) {payload : Bytes} {wall : ESPTime} {o : NvsOutcome}
    {header : GbbHeader} (hact : m.act = .message payload wall o)
    (hacc : acceptedHeader P payload = some header) :
    m.post.pending = some header ∧
      m.post.dongle.requestsReceived = m.pre.dongle.requestsReceived + 1 ∧
      m.evs.filterMap acceptedHeaderOf = [header] := by
  obtain ⟨-, hpost⟩ := h
  rw [hact] at hpost
  simp only [Act.perform, Act.run, onCloudMessage, hacc, acceptHeader, Prod.mk.injEq] at hpost
  obtain ⟨hworld, hevs⟩ := hpost
  refine ⟨by rw [hworld], ?_, ?_⟩
  · rw [hworld]
    dsimp only
    split
    · rw [(applyLogLevel_same _ _).2.2]
    · rfl
  · rw [hevs, List.filterMap_append]
    refine (congrArg (· ++ _) ?_).trans (List.nil_append _)
    rw [List.filterMap_eq_nil_iff]
    intro ev hev
    rcases handleFields_kind hev with hk | hk
    all_goals cases ev <;> first | rfl | cases hk

/-- What is accepted is a message's. -/
theorem Step.arrived (h : Step P c m) (hw : Sound m.pre) {header : GbbHeader}
    (hev : .accepted header ∈ m.evs) : arrived P m = some header := by
  cases (step_case h).source hw hev with
  | accepted payload wall o _ act parsed => exact arrived_iff.mpr ⟨payload, wall, o, act, parsed⟩
  | bus hk => cases hk
  | flash hk => cases hk
  | checked _ _ _ _ _ hk => cases hk
  | link hk => cases hk

theorem Step.arrives (h : Step P c m) (hw : Sound m.pre) :
    m.evs.filterMap acceptedHeaderOf = (Gbb.arrived P m).toList := by
  cases hin : Gbb.arrived P m with
  | some header =>
      obtain ⟨payload, wall, o, hact, hacc⟩ := arrived_iff.mp hin
      exact (h.taken hact hacc).2.2
  | none =>
      refine List.filterMap_eq_nil_iff.mpr fun ev hev => ?_
      cases hget : acceptedHeaderOf ev with
      | none => rfl
      | some header =>
          obtain rfl : ev = .accepted header := by
            cases ev <;> cases hget
            rfl
          rw [h.arrived hw hev] at hin
          cases hin

/-- A request is started where it was pending, and is then the executor's. -/
theorem Step.starts (h : Step P c m) (hw : Sound m.pre) {header : GbbHeader}
    (hev : .started header ∈ m.evs) : m.pre.executor.state = .idle ∧
      m.pre.pending = some header ∧ m.post.pending = none ∧
      ∃ t, m.post.executor = (m.pre.executor.start t header).1 := by
  cases (step_case h).source hw hev with
  | started t _ free queued waiting executor pending =>
      exact ⟨free, waiting, pending, t, executor⟩
  | bus hk => cases hk
  | flash hk => cases hk
  | checked _ _ _ _ _ hk => cases hk
  | link hk => cases hk

theorem Runs.sounds {b : BootInput} (h : Runs P c (setup P b).1 es w) :
    Run (fun m => Step P c m ∧ Sound m.pre ∧ Sound m.post) (setup P b).1 es w :=
  Run.guarded h (Sound.setup P b) fun _ hm hw => hw.step (step_case hm)

theorem Runs.arrivals {b : BootInput} (h : Runs P c (setup P b).1 es w) :
    acceptedHeaders es = es.filterMap (arrived P) := by
  refine h.sounds.history
    (H := fun es _ => acceptedHeaders es = es.filterMap (arrived P)) rfl ?_
  intro es m _ ih ⟨hm, hw, _⟩
  rw [acceptedHeaders, List.flatMap_append, List.filterMap_append, List.flatMap_singleton,
    hm.arrives hw, List.filterMap_append]
  refine congrArg₂ (· ++ ·) ih ?_
  rw [List.filterMap_cons]
  cases arrived P m <;> rfl

theorem requests_accounted {b : BootInput} (h : Runs P c (setup P b).1 es w) :
    RequestsAccounted P c es w := by
  obtain ⟨hlawful, hslot⟩ := Runs.pendingOps h
  refine ⟨?_, ?_, Runs.arrivals h, ?_, ?_, ?_, ?_, ?_, ?_⟩
  · intro m hm payload wall o hact hbad
    exact (h.mem hm).rejected hact (acceptedHeader_eq_none.mpr hbad)
  · intro m hm payload wall o header hact hlen hparse
    obtain ⟨hpending, hcount, -⟩ :=
      (h.mem hm).taken hact (acceptedHeader_eq_some.mpr ⟨hlen, hparse⟩)
    exact ⟨hpending, hcount⟩
  · intro m hm header hev
    obtain ⟨hstep, hw, -⟩ := h.sounds.mem hm
    exact hstep.starts hw hev
  · obtain ⟨done, hdone, hsub⟩ := hlawful.sublist
    rw [List.forall₂_eq_eq_eq] at hdone
    rw [← puts_pendingOps, ← takes_pendingOps, ← hdone]
    exact (List.sublist_append_left done _).trans hsub
  · intro before header after heq
    rw [heq] at hlawful
    obtain ⟨earlier, a, rfl, rfl⟩ := hlawful.taken
    exact ⟨earlier, rfl⟩
  · intro before header after heq
    rw [heq] at hlawful hslot
    rcases hlawful.fate with rfl | ⟨_, later, rfl, rfl⟩ | ⟨-, newer, later, rfl⟩
    · rw [slot_put] at hslot
      exact .inl ⟨rfl, hslot.symm⟩
    · exact .inr (.inl ⟨later, rfl⟩)
    · exact .inr (.inr ⟨newer, later, rfl⟩)
  · obtain ⟨done, hputs, hdone⟩ := (Runs.desk h).lawful.conserved
    rw [puts_deskOps] at hputs
    rw [takes_deskOps] at hdone
    refine ⟨done, _, hputs, ?_, hdone⟩
    cases slot (es.flatMap deskOps) <;> simp
  · exact Runs.publishes h

/-- The message about `A` is replaced while pending, that about `B` is started and
answered, and the request of the night waits for the cycle and is then on the desk. -/
theorem requests_accounted_night :
    RequestsAccounted nightDevice {} nightRun
        (performAll nightDevice {} night (setup nightDevice unplugged).1).2 ∧
      ∃ replaced header underway,
        parseHeader nightDevice (keepDoc 1 "B" "0206000100039838").render = some header ∧
        acceptedHeaders nightRun = [replaced, header, underway] ∧
        startedHeaders nightRun = [header, underway] ∧
        publishedPayloads nightRun =
          [nightDevice.serialize (responseDoc header ({} : Config).identity [] none)] := by
  refine ⟨requests_accounted (performAll_runs rfl),
    (parseHeader nightDevice (keepDoc 1 "A" "01060001000259CB").render).getD {},
    (parseHeader nightDevice (keepDoc 1 "B" "0206000100039838").render).getD {},
    (parseHeader nightDevice (requestDoc "7" "01030204000345B2").render).getD {}, ?_⟩
  decide +kernel

end Gbb
