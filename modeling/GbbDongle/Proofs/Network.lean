import GbbDongle.Proofs.Exchange

/-!
# An exchange across the network

Tool and dongle are put together, with a broker between them of which nothing
is asked: what was published on a topic arrives any number of times, at any
time and in any order, or never. The dongle goes on with everything else it
does, and may reboot.

The order id carries the result. The dongle cannot have accepted a request
before it was asked, so the batch that an answer records lies after the
question, and it is this question's batch since no other has the id.
-/

namespace Gbb

open History ModbusExecutor

namespace Busscan

/-! ## The network -/

/-- A call of `exchange`, and the clock by which it is stamped. -/
structure Question where
  addr : UInt8
  start : UInt16
  count : UInt16
  unix : Int64
deriving DecidableEq

def Question.frameHex (q : Question) : Bytes := buildRead q.addr q.start q.count

/-- Both programs, and everything published so far on either topic. -/
structure Network where
  tool : Tool := {}
  device : Gbb.World
  toDevice : List Bytes := []
  fromDevice : List Bytes := []

inductive NetAct
  | device (d : Moment)
  | ask (q : Question)
  | arrive (payload : Bytes)
  | take
  | giveUp

abbrev NetMove := Move Network NetAct Exchange

section
variable (G : GoJson) (P : Platform) (c : Config)

/-- The message that an act of the dongle is about. -/
def messageOf : Act → Option Bytes
  | .message payload _ _ => some payload
  | _ => none

/-- A message of somebody else's, whatever it asks for. -/
def Foreign (payload : Bytes) : Prop :=
  ∀ header k, acceptedHeader P payload = some header → header.orderId ≠ orderId k

/-- A response to somebody else. -/
def Stray (payload : Bytes) : Prop := ∀ k, readResponse G (orderId k) payload = .ignored

/-- One thing that happens. An `exchange` reads the channel until something in
it is an answer, and may give up at any time. -/
inductive NetStep : NetMove → Prop
  | device {n : Network} {d : Moment} (pre : d.pre = n.device)
      (moves : Step P c d ∨ Reboot P c d)
      (message : ∀ payload ∈ messageOf d.act, payload ∈ n.toDevice ∨ Foreign P payload) :
      NetStep ⟨n, .device d, [], { n with
        device := d.post
        fromDevice := n.fromDevice ++ publishedPayloads [d] }⟩
  | ask {n : Network} (q : Question) (free : n.tool.waiting = none) :
      NetStep ⟨n, .ask q, [], { n with
        tool := (n.tool.ask G q.unix q.frameHex).1
        toDevice := n.toDevice ++ [(n.tool.ask G q.unix q.frameHex).2] }⟩
  | arrive {n : Network} {payload : Bytes} (sent : payload ∈ n.fromDevice ∨ Stray G payload) :
      NetStep ⟨n, .arrive payload, [], { n with tool := n.tool.arrive payload }⟩
  | skip {n : Network} {id raw : Bytes} {rest : List Bytes} (waiting : n.tool.waiting = some id)
      (responses : n.tool.responses = raw :: rest) (ignored : readResponse G id raw = .ignored) :
      NetStep ⟨n, .take, [], { n with tool := { n.tool with responses := rest } }⟩
  | answer {n : Network} {id raw : Bytes} {rest : List Bytes} {x : Exchange}
      (waiting : n.tool.waiting = some id) (responses : n.tool.responses = raw :: rest)
      (returns : (readResponse G id raw).Returns x) :
      NetStep ⟨n, .take, [x], { n with
        tool := { n.tool with waiting := none, responses := rest } }⟩
  | giveUp {n : Network} (err : Bytes) (ctxErr : Option Bytes) :
      NetStep ⟨n, .giveUp, [.failed err ctxErr], { n with
        tool := { n.tool with waiting := none } }⟩

/-- Runs of tool and dongle together. -/
abbrev Talks (n₀ : Network) (es : List NetMove) (n : Network) : Prop := Run (NetStep G P c) n₀ es n

end

/-- A dongle that has booted, a tool that has not asked yet. -/
def fresh (P : Platform) (b : BootInput) : Network where
  device := (setup P b).1

/-! ## Projections -/

def deviceOf (m : NetMove) : Option Moment :=
  match m.act with
  | .device d => some d
  | _ => none

/-- The dongle's own history. -/
def deviceMoves (es : List NetMove) : List Moment := es.filterMap deviceOf

def askOf (m : NetMove) : Option Question :=
  match m.act with
  | .ask q => some q
  | _ => none

/-- The questions, in order. -/
def asks (es : List NetMove) : List Question := es.filterMap askOf

/-- The question of this order number was asked. -/
def Asked (es : List NetMove) (k : UInt64) (q : Question) : Prop :=
  ∃ i, (asks es)[i]? = some q ∧ k = UInt64.ofNat (i + 1)

variable {G : GoJson} {P : Platform} {c : Config} {coerce : Bytes → Bytes} {b : BootInput}
  {es fs : List NetMove} {m : NetMove} {n n₀ : Network} {k : UInt64} {q q' : Question}

theorem deviceMoves_append : deviceMoves (es ++ fs) = deviceMoves es ++ deviceMoves fs :=
  List.filterMap_append

theorem deviceMoves_silent (h : deviceOf m = none) : deviceMoves (es ++ [m]) = deviceMoves es := by
  rw [deviceMoves_append, deviceMoves, deviceMoves, List.filterMap_cons_none h, List.filterMap_nil,
    List.append_nil]

theorem asks_append : asks (es ++ fs) = asks es ++ asks fs := List.filterMap_append

theorem Asked.mono (h : Asked es k q) : Asked (es ++ fs) k q := by
  obtain ⟨i, hi, hk⟩ := h
  obtain ⟨hlt, -⟩ := List.getElem?_eq_some_iff.mp hi
  refine ⟨i, ?_, hk⟩
  rw [asks_append, List.getElem?_append_left hlt, hi]

/-- Fewer questions than there are order numbers are told apart by them. -/
theorem Asked.last {qs : List Question} (h : Asked es k q') (hall : asks es = qs ++ [q])
    (hcount : (asks es).length < 2 ^ 64) (hk : k = UInt64.ofNat (asks es).length) : q' = q := by
  obtain ⟨i, hi, hki⟩ := h
  obtain ⟨hlt, -⟩ := List.getElem?_eq_some_iff.mp hi
  have hnat := congrArg UInt64.toNat (hki.symm.trans hk)
  rw [UInt64.toNat_ofNat', UInt64.toNat_ofNat', Nat.mod_eq_of_lt (by omega),
    Nat.mod_eq_of_lt hcount] at hnat
  have hlast : i = qs.length := by
    rw [hall, List.length_append, List.length_singleton] at hnat
    omega
  rw [hall, hlast, List.getElem?_concat_length] at hi
  exact (Option.some.inj hi).symm

/-- A question to come has none of the order numbers so far. -/
theorem Asked.earlier (h : Asked es k q) (hcount : (asks es).length + 1 < 2 ^ 64) :
    k ≠ UInt64.ofNat ((asks es).length + 1) := by
  obtain ⟨i, hi, rfl⟩ := h
  obtain ⟨hlt, -⟩ := List.getElem?_eq_some_iff.mp hi
  intro heq
  have hnat := congrArg UInt64.toNat heq
  rw [UInt64.toNat_ofNat', UInt64.toNat_ofNat', Nat.mod_eq_of_lt (by omega),
    Nat.mod_eq_of_lt hcount] at hnat
  omega

/-! ## What a run keeps -/

theorem Talks.lives (h : Talks G P c (fresh P b) es n) :
    Lives P c (setup P b).1 (deviceMoves es) n.device := by
  refine h.history (H := fun es n => Lives P c (setup P b).1 (deviceMoves es) n.device) .nil ?_
  intro es m _ ih hm
  cases hm with
  | device pre moves =>
      rw [deviceMoves_append]
      rw [← pre] at ih
      exact .snoc ih moves
  | ask | arrive | skip | answer | giveUp =>
      rw [deviceMoves_silent rfl]
      exact ih

theorem Talks.counter (h : Talks G P c (fresh P b) es n) :
    n.tool.orderCounter = UInt64.ofNat (asks es).length := by
  refine h.history (H := fun es n => n.tool.orderCounter = UInt64.ofNat (asks es).length) rfl ?_
  intro es m _ ih hm
  rw [asks_append, List.length_append]
  cases hm with
  | ask q free =>
      show _ + 1 = UInt64.ofNat (_ + 1)
      rw [ih, UInt64.ofNat_add]
      rfl
  | arrive sent =>
      rw [Tool.arrive]
      split <;> exact ih
  | device | skip | answer | giveUp => exact ih

/-- What is on its way to the dongle was asked. -/
theorem Talks.carried (h : Talks G P c (fresh P b) es n) :
    ∀ payload ∈ n.toDevice, ∃ k q, Asked es k q ∧
      payload = G.marshal (request k q.unix q.frameHex).doc := by
  refine h.history (H := fun es n => ∀ payload ∈ n.toDevice, ∃ k q, Asked es k q ∧
    payload = G.marshal (request k q.unix q.frameHex).doc) ?_ ?_
  · intro payload hp
    cases hp
  · intro es m hrun ih hm payload hp
    have hold : payload ∈ m.pre.toDevice → ∃ k q, Asked (es ++ [m]) k q ∧
        payload = G.marshal (request k q.unix q.frameHex).doc := by
      intro hp
      obtain ⟨k, q, hasked, heq⟩ := ih payload hp
      exact ⟨k, q, hasked.mono, heq⟩
    cases hm with
    | ask q free =>
        rcases List.mem_append.mp hp with hp | hp
        · exact hold hp
        · refine ⟨_, q, ⟨(asks es).length, ?_, ?_⟩, List.mem_singleton.mp hp⟩
          · rw [asks_append]
            exact List.getElem?_concat_length
          · rw [Talks.counter hrun, UInt64.ofNat_add]
            rfl
    | device | arrive | skip | answer | giveUp => exact hold hp

/-- What is on its way to the tool was published. -/
theorem Talks.published (h : Talks G P c (fresh P b) es n) :
    ∀ payload ∈ n.fromDevice, ∃ d ∈ deviceMoves es, Event.published payload ∈ d.evs := by
  refine h.history (H := fun es n => ∀ payload ∈ n.fromDevice,
    ∃ d ∈ deviceMoves es, Event.published payload ∈ d.evs) ?_ ?_
  · intro payload hp
    cases hp
  · intro es m _ ih hm payload hp
    have hold : payload ∈ m.pre.fromDevice →
        ∃ d ∈ deviceMoves (es ++ [m]), Event.published payload ∈ d.evs := by
      intro hp
      obtain ⟨d, hd, hev⟩ := ih payload hp
      rw [deviceMoves_append]
      exact ⟨d, List.mem_append_left _ hd, hev⟩
    cases hm with
    | @device n d pre moves message =>
        rcases List.mem_append.mp hp with hp | hp
        · exact hold hp
        · refine ⟨d, by simp [deviceMoves, deviceOf], ?_⟩
          rw [publishedPayloads, List.flatMap_singleton] at hp
          obtain ⟨ev, hev, hpayload⟩ := List.mem_filterMap.mp hp
          cases ev <;> cases hpayload
          exact hev
    | ask | arrive | skip | answer | giveUp => exact hold hp

theorem Talks.responses (h : Talks G P c (fresh P b) es n) :
    ∀ payload ∈ n.tool.responses,
      (∃ d ∈ deviceMoves es, Event.published payload ∈ d.evs) ∨ Stray G payload := by
  refine h.history (H := fun es n => ∀ payload ∈ n.tool.responses,
    (∃ d ∈ deviceMoves es, Event.published payload ∈ d.evs) ∨ Stray G payload) ?_ ?_
  · intro payload hp
    cases hp
  · intro es m hrun ih hm payload hp
    have hold : payload ∈ m.pre.tool.responses →
        (∃ d ∈ deviceMoves (es ++ [m]), Event.published payload ∈ d.evs) ∨ Stray G payload := by
      intro hp
      refine (ih payload hp).imp_left fun ⟨d, hd, hev⟩ => ⟨d, ?_, hev⟩
      rw [deviceMoves_append]
      exact List.mem_append_left _ hd
    cases hm with
    | device => exact hold hp
    | giveUp => exact hold hp
    | ask => cases hp
    | skip waiting responses | answer waiting responses =>
        refine hold ?_
        rw [responses]
        exact List.mem_cons_of_mem _ hp
    | @arrive n new sent =>
        dsimp only at hp
        rw [Tool.arrive] at hp
        split at hp
        · rcases List.mem_append.mp hp with hp | hp
          · exact hold hp
          · obtain rfl := List.mem_singleton.mp hp
            refine sent.imp_left fun hsent => ?_
            obtain ⟨d, hd, hev⟩ := Talks.published hrun payload hsent
            rw [deviceMoves_append]
            exact ⟨d, List.mem_append_left _ hd, hev⟩
        · exact hold hp

/-- What the dongle accepts under an order number was asked before. -/
theorem Talks.accepted (hs : Speaks G P coerce) (h : Talks G P c (fresh P b) es n) :
    ∀ d ∈ deviceMoves es, ∀ header k, arrived P d = some header → header.orderId = orderId k →
      ∃ q, Asked es k q ∧ header.lines = [toolLine q.unix q.frameHex] := by
  refine h.history (H := fun es n => ∀ d ∈ deviceMoves es, ∀ header k,
    arrived P d = some header → header.orderId = orderId k →
    ∃ q, Asked es k q ∧ header.lines = [toolLine q.unix q.frameHex]) ?_ ?_
  · intro d hd
    cases hd
  · intro es m hrun ih hm d hd header k hacc hid
    have hold : d ∈ deviceMoves es →
        ∃ q, Asked (es ++ [m]) k q ∧ header.lines = [toolLine q.unix q.frameHex] := by
      intro hd
      obtain ⟨q, hasked, hlines⟩ := ih d hd header k hacc hid
      exact ⟨q, hasked.mono, hlines⟩
    cases hm with
    | @device n d' pre moves message =>
        rw [deviceMoves_append] at hd
        rcases List.mem_append.mp hd with hd | hd
        · exact hold hd
        · obtain rfl : d = d' := by simpa [deviceMoves, deviceOf] using hd
          obtain ⟨payload, wall, o, hact, hparsed⟩ := arrived_iff.mp hacc
          rcases message payload (by rw [hact]; rfl) with hsent | hforeign
          · obtain ⟨k', q, hasked, rfl⟩ := Talks.carried hrun payload hsent
            obtain ⟨horder, hlines⟩ := accepted_request hs hparsed
            rw [horder] at hid
            rw [← orderId_injective hid]
            exact ⟨q, hasked.mono, hlines⟩
          · exact absurd hid (hforeign header k hparsed)
    | ask | arrive | skip | answer | giveUp =>
        rw [deviceMoves_silent rfl] at hd
        exact hold hd

/-- An `exchange` that waits was asked last. -/
theorem Talks.waiting (h : Talks G P c (fresh P b) es n) :
    ∀ id, n.tool.waiting = some id → ∃ before a since q, es = before ++ a :: since ∧
      a.act = .ask q ∧ asks since = [] ∧ id = orderId (UInt64.ofNat ((asks before).length + 1)) := by
  refine h.history (H := fun es n => ∀ id, n.tool.waiting = some id → ∃ before a since q,
    es = before ++ a :: since ∧ a.act = .ask q ∧ asks since = [] ∧
      id = orderId (UInt64.ofNat ((asks before).length + 1))) ?_ ?_
  · intro id hid
    cases hid
  · intro es m hrun ih hm id hid
    have hold : m.pre.tool.waiting = some id → askOf m = none → ∃ before a since q,
        es ++ [m] = before ++ a :: since ∧ a.act = .ask q ∧ asks since = [] ∧
        id = orderId (UInt64.ofNat ((asks before).length + 1)) := by
      intro hid hno
      obtain ⟨before, a, since, q, rfl, hask, hnone, heq⟩ := ih id hid
      refine ⟨before, a, since ++ [m], q, by simp, hask, ?_, heq⟩
      rw [asks_append, hnone, asks, List.filterMap_cons_none hno, List.filterMap_nil]
      rfl
    cases hm with
    | ask q free =>
        refine ⟨es, _, [], q, rfl, rfl, rfl, ?_⟩
        have hcounter := Talks.counter hrun
        rw [UInt64.ofNat_add, ← hcounter]
        exact (Option.some.inj hid).symm
    | arrive sent =>
        refine hold ?_ rfl
        rw [← hid]
        dsimp only
        rw [Tool.arrive]
        split <;> rfl
    | device => exact hold hid rfl
    | skip => exact hold hid rfl
    | answer | giveUp => cases hid

/-! ## The answer -/

/-- What came of a frame that was to be sent: the frames and replies there were
on the bus, and what `exchange` returns. -/
inductive Outcome (frame : Bytes) : List Bytes → List Bytes → Exchange → Prop
  | answered {reply : Bytes} (length : 4 ≤ reply.length) (crc : crcOk reply = true) :
      Outcome frame [frame] [reply] (.frame reply)
  | failed {fault : LineFault} (hex : fault ≠ .invalidHex) :
      Outcome frame [frame] [] (.dongleError fault.message)

theorem toolLine_sendable : ∀ l ∈ [toolLine q.unix q.frameHex], Sendable l := by
  intro l hl
  obtain rfl := List.mem_singleton.mp hl
  have hno : ([] : Bytes) ≠ LineFault.invalidHex.message := by decide
  refine ⟨hno, fun _ => ⟨_, rfl, ?_⟩⟩
  simp

/-- The answer in the response to a batch of one line. -/
theorem Settled.outcome (hs : Speaks G P coerce) {h : GbbHeader} {unix : Int64} {x : Exchange}
    {frames replies : List Bytes} (hid : h.hasOrderId = true) (horder : h.orderId = orderId k)
    (hsend : ∀ l ∈ h.lines, Sendable l)
    (hset : Settled (toolLine unix q.frameHex) frames replies h.lines)
    (hx : (readHeader (orderId k) (Header.ofGbb coerce h)).Returns x) :
    ∃ frame, hexDecode q.frameHex = some frame ∧ Outcome frame frames replies x := by
  cases hset with
  | answered frame reply sent frames_eq replies_eq length crc lines_eq =>
      rw [readHeader_answered hs hid horder rfl rfl lines_eq] at hx
      cases hx
      subst frames_eq replies_eq
      exact ⟨frame, sent, .answered length crc⟩
  | failed fault tried replies_eq lines_eq =>
      rw [readHeader_failed hs hid horder lines_eq] at hx
      cases hx
      subst replies_eq
      have hhex : fault ≠ .invalidHex := by
        rintro rfl
        rw [lines_eq] at hsend
        exact (hsend _ (List.mem_singleton.mpr rfl)).1 rfl
      cases tried with
      | never => exact absurd rfl hhex
      | once _ sent => exact ⟨_, sent, .failed hhex⟩

/-- Where the move at which something is accepted lies, if it is not among the
first. -/
theorem append_split {α : Type*} {as bs cs ds : List α} {x : α} (h : as ++ bs = cs ++ ds)
    (hx : x ∈ cs) (hno : x ∉ as) : ∃ es, cs = as ++ es ∧ bs = es ++ ds := by
  rcases List.append_eq_append_iff.mp h with ⟨es, hcs, hbs⟩ | ⟨es, has, -⟩
  · exact ⟨es, hcs, hbs⟩
  · exact absurd (has ▸ List.mem_append_left _ hx) hno

/-- Whatever gets lost, is delivered twice or comes late, and whatever else the
dongle does meanwhile, reboots included: what `exchange` returns, unless it
fails, is what became of its own frame. The dongle ran a batch for it after the
question, and nothing else was on the bus during this batch. -/
theorem exchange_returns_its_own {after : List NetMove} {x : Exchange} (hs : Speaks G P coerce)
    (h : Talks G P c (fresh P b) (es ++ m :: after) n) (hcount : (asks es).length < 2 ^ 64)
    (hx : x ∈ m.evs) (hok : ∀ err ctxErr, x ≠ .failed err ctxErr) :
    ∃ before a since q, es = before ++ a :: since ∧ a.act = .ask q ∧ asks since = [] ∧
      ∃ earlier s batch later request frame, deviceMoves since = earlier ++ s :: batch ++ later ∧
        Event.started request ∈ s.evs ∧ request.lines = [toolLine q.unix q.frameHex] ∧
        (∀ y ∈ batch, Step P c y ∧ ¬ Starts y) ∧ hexDecode q.frameHex = some frame ∧
        Outcome frame (framesOf (batch.flatMap Move.evs)) (repliesOf (batch.flatMap Move.evs)) x := by
  obtain ⟨hbefore, hm, -⟩ := h.at
  cases hm with
  | device | ask | arrive | skip => cases hx
  | giveUp err ctxErr => exact absurd (List.mem_singleton.mp hx) (hok err ctxErr)
  | @answer n id raw rest x' waiting responses returns =>
      obtain rfl := List.mem_singleton.mp hx
      obtain ⟨before, a, since, q, rfl, hask, hnone, rfl⟩ := Talks.waiting hbefore id waiting
      have hall : asks (before ++ a :: since) = asks before ++ [q] := by
        have ha : askOf a = some q := by rw [askOf, hask]
        rw [asks_append, asks, asks, List.filterMap_cons_some ha]
        exact congrArg (fun l => asks before ++ q :: l) hnone
      have hlen : (asks (before ++ a :: since)).length = (asks before).length + 1 := by
        rw [hall, List.length_append, List.length_singleton]
      have hmoves :
          deviceMoves (before ++ a :: since) = deviceMoves before ++ deviceMoves since := by
        have ha : deviceOf a = none := by rw [deviceOf, hask]
        rw [deviceMoves_append, deviceMoves, deviceMoves, List.filterMap_cons_none ha]
        rfl
      have hread : readResponse G (orderId (UInt64.ofNat ((asks before).length + 1))) raw ≠
          .ignored := by
        intro hignored
        rw [hignored] at returns
        cases returns
      have hraw : raw ∈ n.tool.responses := by
        rw [responses]
        exact List.mem_cons_self
      rcases Talks.responses hbefore raw hraw with ⟨d, hd, hpub⟩ | hstray
      · -- the batch that the response records
        obtain ⟨ds, ds', hsplit⟩ := List.append_of_mem hd
        have hlives := Talks.lives hbefore
        rw [hsplit] at hlives
        obtain ⟨hdone, hcloud, info, log, rfl, -⟩ := Lives.published hlives hpub
        obtain ⟨dbefore, s, batch, request, errors, rfl, ⟨acc, hacc, hin⟩, hstarted, hbatch, hsame,
          hsend, hfin⟩ := Lives.finished hlives.at.1 hdone hcloud
        -- it was asked for by this question
        obtain ⟨hid, horder, hanswer⟩ := readResponse_of_published hs hread
        have hrequest : request.orderId = orderId (UInt64.ofNat ((asks before).length + 1)) := by
          have hfield := congrArg GbbHeader.orderId hsame.fields
          rw [← horder]
          exact hfield.symm
        have hmem : acc ∈ deviceMoves (before ++ a :: since) := by
          rw [hsplit]
          simp [hacc]
        obtain ⟨q', hasked, hlines⟩ := Talks.accepted hs hbefore acc hmem request _ hin hrequest
        obtain rfl := hasked.last hall hcount (by rw [hlen])
        -- and so it was begun after it
        have hnew : acc ∉ deviceMoves before := by
          intro hold
          obtain ⟨q'', hearlier, -⟩ :=
            Talks.accepted hs hbefore.at.1 acc hold request _ hin hrequest
          exact hearlier.earlier (by omega) rfl
        have hcut : deviceMoves before ++ deviceMoves since =
            dbefore ++ (s :: batch ++ d :: ds') := by
          rw [← hmoves, hsplit]
          simp
        obtain ⟨earlier, -, hsince⟩ := append_split hcut hacc hnew
        rw [hanswer] at returns
        rw [hlines] at hfin hsend
        have hset := settled_of_finished rfl hfin
        obtain ⟨frame, hframe, hout⟩ := hset.outcome hs hid horder (hsend toolLine_sendable) returns
        exact ⟨before, a, since, q', rfl, hask, hnone, earlier, s, batch, d :: ds', request, frame,
          by rw [hsince]; simp, hstarted, hlines, hbatch, hframe, hout⟩
      · exact absurd (hstray _) hread

end Busscan

/-! ## A tool on the bench -/

mutual
/-- Documents are compared member by member. -/
def Json.same : Json → Json → Bool
  | .null, .null => true
  | .bool a, .bool b => a == b
  | .int a, .int b => a == b
  | .float a, .float b => a == b
  | .str a, .str b => a == b
  | .arr a, .arr b => Json.sameElems a b
  | .obj a, .obj b => Json.sameMembers a b
  | _, _ => false

def Json.sameElems : List Json → List Json → Bool
  | [], [] => true
  | a :: as, b :: bs => a.same b && Json.sameElems as bs
  | _, _ => false

def Json.sameMembers : List (String × Json) → List (String × Json) → Bool
  | [], [] => true
  | (key, a) :: as, (key', b) :: bs => key == key' && (a.same b && Json.sameMembers as bs)
  | _, _ => false
end

mutual
theorem Json.eq_of_same : {a b : Json} → a.same b = true → a = b
  | .null, .null, _ => rfl
  | .bool a, .bool b, h | .int a, .int b, h | .float a, .float b, h | .str a, .str b, h => by
      rw [Json.same, beq_iff_eq] at h
      rw [h]
  | .arr a, .arr b, h => by
      rw [Json.same] at h
      rw [Json.eq_of_sameElems h]
  | .obj a, .obj b, h => by
      rw [Json.same] at h
      rw [Json.eq_of_sameMembers h]

theorem Json.eq_of_sameElems : {as bs : List Json} → Json.sameElems as bs = true → as = bs
  | [], [], _ => rfl
  | a :: as, b :: bs, h => by
      rw [Json.sameElems, Bool.and_eq_true] at h
      rw [Json.eq_of_same h.1, Json.eq_of_sameElems h.2]

theorem Json.eq_of_sameMembers : {as bs : List (String × Json)} →
    Json.sameMembers as bs = true → as = bs
  | [], [], _ => rfl
  | (key, a) :: as, (key', b) :: bs, h => by
      rw [Json.sameMembers, Bool.and_eq_true, Bool.and_eq_true, beq_iff_eq] at h
      rw [h.1, Json.eq_of_same h.2.1, Json.eq_of_sameMembers h.2.2]
end

mutual
theorem Json.mapText_id : (j : Json) → j.mapText id = j
  | .null | .bool _ | .int _ | .float _ | .str _ => rfl
  | .arr elems => by rw [Json.mapText, Json.mapElems_id]
  | .obj members => by rw [Json.mapText, Json.mapMembers_id]

theorem Json.mapElems_id : (js : List Json) → Json.mapElems id js = js
  | [] => rfl
  | j :: rest => by rw [Json.mapElems, Json.mapText_id j, Json.mapElems_id rest]

theorem Json.mapMembers_id : (js : List (String × Json)) → Json.mapMembers id js = js
  | [] => rfl
  | (key, j) :: rest => by rw [Json.mapMembers, Json.mapText_id j, Json.mapMembers_id rest]
end

/-- A library that knows the documents in `docs`, and how they are written. -/
def known (docs : List Json) : Platform where
  deserialize payload := docs.find? fun doc => doc.render == payload
  serialize doc := if docs.any doc.same then doc.render else []
  fnv1Hash := fnv1

/-- No two of the documents are written alike. -/
def Legible (docs : List Json) : Prop :=
  ∀ a ∈ docs, a.render ≠ [] ∧ ∀ b ∈ docs, a.render = b.render → a.same b = true

instance (docs : List Json) : Decidable (Legible docs) :=
  inferInstanceAs (Decidable (∀ a ∈ docs, a.render ≠ [] ∧
    ∀ b ∈ docs, a.render = b.render → a.same b = true))

theorem known_reads {docs : List Json} (h : Legible docs) {doc j : Json}
    (hread : (known docs).deserialize ((known docs).serialize doc) = some j) : j = doc := by
  have hj := List.find?_some hread
  have hmem := List.mem_of_find?_eq_some hread
  rw [beq_iff_eq] at hj
  have hser : (known docs).serialize doc = if docs.any doc.same then doc.render else [] := rfl
  rw [hser] at hj
  split at hj
  · next hany =>
      obtain ⟨doc', hdoc', hsame⟩ := List.any_eq_true.mp hany
      obtain rfl := Json.eq_of_same hsame
      exact Json.eq_of_same ((h j hmem).2 doc hdoc' hj)
  · exact absurd hj (h j hmem).1

namespace Busscan

theorem known_speaks {docs : List Json} (h : Legible docs) :
    Speaks ⟨(known docs).serialize, (known docs).deserialize⟩ (known docs) id where
  toDongle k unix addr start count j hread := known_reads h hread
  toTool header identity clientInfo lastLog j hread := by
    rw [known_reads h hread, Json.mapText_id]
  ascii s _ := rfl
  coerced s _ := rfl

/-- The dongle alone moves. -/
theorem Runs.talks {G : GoJson} {P : Platform} {c : Config} {n : Network} {ds : List Moment}
    {w w' : Gbb.World} (h : Runs P c w ds w') (hn : n.device = w)
    (hmessage : ∀ d ∈ ds, ∀ payload ∈ messageOf d.act, payload ∈ n.toDevice) :
    ∃ es, asks es = [] ∧ Run (NetStep G P c) n es { n with
      device := w'
      fromDevice := n.fromDevice ++ publishedPayloads ds } := by
  induction h with
  | nil =>
      refine ⟨[], rfl, ?_⟩
      have hn' :
          { n with device := w, fromDevice := n.fromDevice ++ publishedPayloads [] } = n := by
        rw [← hn]
        simp [publishedPayloads]
      rw [hn']
      exact .nil
  | @snoc ds d hrun hd ih =>
      rw [List.forall_mem_append] at hmessage
      obtain ⟨es, hasks, htalks⟩ := ih hmessage.1
      have hall :
          publishedPayloads (ds ++ [d]) = publishedPayloads ds ++ publishedPayloads [d] := by
        simp [publishedPayloads]
      have hstep := NetStep.device (G := G) (P := P) (c := c) (d := d)
        (n := { n with device := d.pre, fromDevice := n.fromDevice ++ publishedPayloads ds })
        rfl (.inl hd) fun payload hpayload => .inl (hmessage.2 d (by simp) payload hpayload)
      have hrun' := Run.snoc htalks hstep
      rw [hall, ← List.append_assoc]
      refine ⟨_, ?_, hrun'⟩
      rw [asks_append, hasks]
      rfl

/-- An exchange that nothing gets in the way of. -/
theorem Runs.answers {G : GoJson} {P : Platform} {c : Config} {b : BootInput} {q : Question}
    {ds : List Moment} {w : Gbb.World} {payload reply : Bytes} (h : Runs P c (setup P b).1 ds w)
    (hmessage : ∀ d ∈ ds, ∀ message ∈ messageOf d.act,
      message = G.marshal (request 1 q.unix q.frameHex).doc)
    (hpublished : payload ∈ publishedPayloads ds)
    (hread : readResponse G (orderId 1) payload = .answer reply) :
    ∃ es m n, Talks G P c (fresh P b) (es ++ m :: []) n ∧ m.evs = [.frame reply] ∧
      asks es = [q] := by
  have hask := NetStep.ask (G := G) (P := P) (c := c) (n := fresh P b) q rfl
  obtain ⟨es, hasks, hserved⟩ := Runs.talks (G := G)
    (n := { fresh P b with
      tool := (({} : Tool).ask G q.unix q.frameHex).1
      toDevice := [G.marshal (request 1 q.unix q.frameHex).doc] }) h rfl
    fun d hd message hm => List.mem_singleton.mpr (hmessage d hd message hm)
  have hsent : payload ∈ [] ++ publishedPayloads ds := by rwa [List.nil_append]
  have harrive := NetStep.arrive (G := G) (P := P) (c := c)
    (n := ⟨(({} : Tool).ask G q.unix q.frameHex).1, w,
      [G.marshal (request 1 q.unix q.frameHex).doc], [] ++ publishedPayloads ds⟩) (.inl hsent)
  have hreturns : (readResponse G (orderId 1) payload).Returns (.frame reply) := by
    rw [hread]
    exact .answer _
  have htake := NetStep.answer (G := G) (P := P) (c := c)
    (n := ⟨(({} : Tool).ask G q.unix q.frameHex).1.arrive payload, w,
      [G.marshal (request 1 q.unix q.frameHex).doc], [] ++ publishedPayloads ds⟩)
    rfl rfl hreturns
  refine ⟨_, _, _, (((Run.snoc .nil hask).append hserved).snoc harrive).snoc htake, rfl, ?_⟩
  rw [asks_append, asks_append, hasks]
  rfl

def servedQuestion : Question where
  addr := 1
  start := 0
  count := 1
  unix := 1700000000

def askedDoc : Json := (request 1 servedQuestion.unix servedQuestion.frameHex).doc

def answeredDoc : Json :=
  responseDoc
    { hasOrderId := true
      orderId := orderId 1
      hasSendLastLog := true
      lines := [{ toolLine servedQuestion.unix (text "01030200057847") with hasModbus := true }] }
    ({} : Config).identity [] none

def servedDevice : Platform := known [askedDoc, answeredDoc]

def servedTool : GoJson := ⟨servedDevice.serialize, servedDevice.deserialize⟩

def servedRun : List Moment × Gbb.World :=
  performAll servedDevice {}
    ([arrives askedDoc (clockAt 1 0)] ++
      callAfter 2000 [] (clockAt 1 0) ++ callAfter 10 [] (clockAt 1 0) ++
      callAfter 100 [0x01, 0x03, 0x02, 0x00, 0x05, 0x78, 0x47] (clockAt 1 0) ++
      callAfter 10 [] (clockAt 1 0))
    (setup servedDevice unplugged).1

/-- The reply of the device at address 1. -/
def servedReply : Bytes := [0x01, 0x03, 0x02, 0x00, 0x05, 0x78, 0x47]

theorem exchange_returns_its_own_served :
    ∃ es m n, Talks servedTool servedDevice {} (fresh servedDevice unplugged) (es ++ m :: []) n ∧
      m.evs = [.frame servedReply] ∧ ∃ (frame : Bytes) (batch : List Moment),
        framesOf (batch.flatMap Move.evs) = [frame] ∧
        repliesOf (batch.flatMap Move.evs) = [servedReply] := by
  have hlegible : Legible [askedDoc, answeredDoc] := by decide +kernel
  have hruns : Runs servedDevice {} (setup servedDevice unplugged).1 servedRun.1 servedRun.2 :=
    performAll_runs rfl
  have hmessage : ∀ d ∈ servedRun.1, ∀ message ∈ messageOf d.act,
      message = servedTool.marshal askedDoc := by decide +kernel
  have hpublished : answeredDoc.render ∈ publishedPayloads servedRun.1 := by decide +kernel
  have hread : readResponse servedTool (orderId 1) answeredDoc.render = .answer servedReply := by
    decide +kernel
  obtain ⟨es, m, n, hrun, hevs, hasks⟩ := Runs.answers hruns hmessage hpublished hread
  have hmem : Exchange.frame servedReply ∈ m.evs := by
    rw [hevs]
    exact List.mem_singleton.mpr rfl
  have hcount : (asks es).length < 2 ^ 64 := by
    rw [hasks]
    decide
  obtain ⟨-, -, -, -, -, -, -, -, -, batch, -, -, frame, -, -, -, -, -, hout⟩ :=
    exchange_returns_its_own (known_speaks hlegible) hrun hcount hmem (by simp)
  refine ⟨es, m, n, hrun, hevs, frame, batch, ?_⟩
  generalize framesOf (batch.flatMap Move.evs) = frames at hout ⊢
  generalize repliesOf (batch.flatMap Move.evs) = replies at hout ⊢
  cases hout
  exact ⟨rfl, rfl⟩

end Busscan
end Gbb
