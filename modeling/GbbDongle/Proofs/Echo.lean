import GbbDongle.Proofs.BatchResult
import GbbDongle.Proofs.Bench
import GbbDongle.Proofs.Hex
import GbbDongle.Proofs.Protocol

/-!
# The response echoes the request

`parse_header` and `build_response` are two lists of fields written by hand.
They match on every header that is `Echoable`: its strings end at no NUL before
their end, its values without a flag are the defaults, and its lines fit an
array. Parsing gives such headers, and a batch keeps them so: it puts hex into
a line that has a payload, and takes the payload away together with its flag.
-/

namespace Gbb

open History

variable {P : Platform} {h h' : GbbHeader} {l l' : GbbLine} {orig ans : List GbbLine}

/-- A header as parsing leaves it, what concerns the emergency set aside. -/
structure Echoable (h : GbbHeader) : Prop where
  error : NulFree h.error
  orderId : NulFree h.orderId ∧ (h.hasOrderId = false → h.orderId = [])
  logLevel : NulFree h.logLevel ∧ (h.hasLogLevel = false → h.logLevel = [])
  sendLastLog : h.hasSendLastLog = false → h.sendLastLog = 0
  subInverterSn : NulFree h.subInverterSn ∧ (h.hasSubInverterSn = false → h.subInverterSn = [])
  lines : ∀ l ∈ h.lines, Readable l
  length : h.lines.length ≤ maxLinesPerArray
  emergency : h.emergency = false

/-- A header without the fields a response leaves out. -/
def GbbHeader.withoutSetup (h : GbbHeader) : GbbHeader :=
  { h with
    hasIsInvSetup := false, isInvSetup := 0,
    hasLinesOnNoInvSetup := false, linesOnNoInvSetup := [] }

/-! ## Parsing gives such headers -/

theorem parseHeader_echoable {payload : Bytes} (hparse : parseHeader P payload = some h) :
    Echoable h := by
  simp only [parseHeader, Option.bind_eq_bind, Option.bind_eq_some_iff] at hparse
  obtain ⟨root, -, lines, hlines, noInv, -, heq⟩ := hparse
  obtain rfl := Option.some.inj heq
  obtain ⟨hlength, hreadable⟩ := parseLinesMember_spec hlines
  refine ⟨(nulFree_asStr? _).1, nulFree_asStr? _, nulFree_asStr? _, ?_, nulFree_asStr? _,
    hreadable, hlength, rfl⟩
  intro hnone
  simp only [Option.isSome_eq_false_iff, Option.isNone_iff_eq_none] at hnone
  simp only [hnone, Option.getD_none]

/-! ## A batch keeps them -/

theorem nulFree_bytesToHex (b : Bytes) : NulFree (bytesToHex b) := by
  have hdigit (n : UInt8) : n < 16 → hexDigit n ≠ 0 :=
    forall_byte (p := fun n => n < 16 → hexDigit n ≠ 0) (by decide +kernel) n
  induction b with
  | nil => exact List.not_mem_nil
  | cons x rest ih =>
      obtain ⟨hhigh, hlow, -⟩ := nibbles_of_byte x
      rw [bytesToHex, NulFree, List.mem_cons, List.mem_cons, not_or, not_or]
      exact ⟨(hdigit _ hhigh).symm, (hdigit _ hlow).symm, ih⟩

theorem nulFree_message (fault : LineFault) : NulFree fault.message := by
  show (0 : UInt8) ∉ fault.message
  cases fault <;> decide

namespace Readable

theorem clearModbus (h : Readable l) : Readable (ModbusExecutor.clearModbus l) :=
  ⟨h.tag, h.timestamp, ⟨List.not_mem_nil, fun _ => rfl⟩, h.error⟩

theorem failedLine (h : Readable l) (fault : LineFault) :
    Readable (ModbusExecutor.failedLine fault l) :=
  ⟨h.tag, h.timestamp, ⟨List.not_mem_nil, fun _ => rfl⟩, nulFree_message fault⟩

/-- A line takes a reply only where it has a payload. -/
theorem settled (h : Readable l) (hs : ModbusExecutor.Settled l l') : Readable l' := by
  rcases hs with ⟨-, rfl⟩ | ⟨hc, frame, -, -, rfl⟩
  · exact h
  · have hflag : l.hasModbus = true := by
      rw [GbbLine.carries, Bool.and_eq_true] at hc
      exact hc.1
    refine ⟨h.tag, h.timestamp, ⟨nulFree_bytesToHex frame, ?_⟩, h.error⟩
    intro hno
    exact absurd (hflag.symm.trans hno) (by decide)

end Readable

theorem readable_settled {pre settled : List GbbLine}
    (hset : List.Forall₂ ModbusExecutor.Settled pre settled) (h : ∀ l ∈ pre, Readable l) :
    ∀ l ∈ settled, Readable l := by
  induction hset with
  | nil => exact fun l hl => absurd hl List.not_mem_nil
  | cons hs _ ih =>
      intro l hl
      rcases List.mem_cons.mp hl with rfl | hl
      · exact (h _ (by simp)).settled hs
      · exact ih (fun x hx => h x (by simp [hx])) l hl

/-- Wherever a batch stands, its lines can be read back. -/
theorem Batch.readable {e : ModbusExecutor} (hb : ModbusExecutor.Batch orig ans e)
    (h : ∀ l ∈ orig, Readable l) : ∀ l ∈ e.header.lines, Readable l := by
  cases hb with
  | running pre settled rest line horig hset hlines =>
      have hpre := readable_settled hset fun x hx => h x (by simp [horig, hx])
      intro l hl
      rw [hlines, List.mem_append] at hl
      rcases hl with hl | hl
      · exact hpre l hl
      · exact h l (by rw [horig]; exact List.mem_append_right _ hl)
  | through hd hset => exact readable_settled hset h
  | broken pre settled rest line fault horig hset hc hd hlines =>
      have hpre := readable_settled hset fun x hx => h x (by simp [horig, hx])
      intro l hl
      rw [hlines, List.mem_append, List.mem_cons, List.mem_map] at hl
      rcases hl with hl | rfl | ⟨x, hx, rfl⟩
      · exact hpre l hl
      · exact (h line (by simp [horig])).failedLine fault
      · exact (h x (by simp [horig, hx])).clearModbus

theorem Echoable.sameRequest (h₀ : Echoable h) (hsame : ModbusExecutor.SameRequest h h')
    (hlines : ∀ l ∈ h'.lines, Readable l) : Echoable h' := by
  have hlen := congrArg List.length hsame.echoes
  rw [List.length_map, List.length_map] at hlen
  have hrest : h' = { h with lines := h'.lines } :=
    congrArg (fun x : GbbHeader => { x with lines := h'.lines }) hsame.fields
  rw [hrest]
  exact ⟨h₀.error, h₀.orderId, h₀.logLevel, h₀.sendLastLog, h₀.subInverterSn, hlines,
    hlen ▸ h₀.length, h₀.emergency⟩

/-- The header a batch works on can be echoed at every point of it. -/
theorem run_echoable (c : BusConfig) (t : Nat) (e : ModbusExecutor) (calls : List BusCall)
    (h₀ : Echoable h) :
    Echoable (after (ModbusExecutor.serve c) calls (ModbusExecutor.start t h e).1).header := by
  have hbatch : ∃ ans, ModbusExecutor.Batch h.lines ans
      (after (ModbusExecutor.serve c) calls (ModbusExecutor.start t h e).1) := by
    refine Run.invariant (I := fun u => ∃ ans, ModbusExecutor.Batch h.lines ans u)
      (moves_run (f := ModbusExecutor.serve c)) ⟨[], (ModbusExecutor.start_batch t h e).1⟩ ?_
    rintro m hm ⟨ans, hb⟩
    rw [show m.post = (ModbusExecutor.serve c m.act m.pre).1 by rw [hm]]
    cases m.act with
    | poll call => exact ⟨_, hb.loop⟩
    | baudRate baud => exact ⟨_, hb.hint _⟩
  obtain ⟨ans, hb⟩ := hbatch
  have hsame : ModbusExecutor.SameRequest h
      (after (ModbusExecutor.serve c) calls (ModbusExecutor.start t h e).1).header :=
    ModbusExecutor.run_sameRequest moves_run (ModbusExecutor.start_sameRequest t h e)
  exact h₀.sameRequest hsame (Batch.readable hb h₀.lines)

/-! ## The document of a response -/

section
variable (h : GbbHeader) (id : GbbClientIdentity) (clientInfo : Bytes) (lastLog : Option Bytes)

/-- The members of a response that a header is read from. -/
theorem responseDoc_members :
    let doc := responseDoc h id clientInfo lastLog
    doc.member "Error" = (if h.error.isEmpty then .null else .str h.error) ∧
      doc.member "OrderId" = (if h.hasOrderId then .str h.orderId else .null) ∧
      doc.member "LogLevel" = (if h.hasLogLevel then .str h.logLevel else .null) ∧
      doc.member "SendLastLog" = (if h.hasSendLastLog then .int h.sendLastLog.toInt else .null) ∧
      doc.member "SubInverterSN" =
        (if h.hasSubInverterSn then .str h.subInverterSn else .null) ∧
      doc.member "Lines" = (if h.lines.isEmpty then .null else serializeLineArray h.lines) ∧
      doc.member "IsInvSetup" = .null ∧ doc.member "LinesOnNoInvSetup" = .null := by
  intro doc
  refine ⟨?_, ?_, ?_, ?_, ?_, ?_, ?_, ?_⟩
  · simp only [doc, responseDoc, List.append_assoc, List.cons_append, List.nil_append]
    cases h.error.isEmpty <;> simp
  · simp [doc, responseDoc]
  · simp [doc, responseDoc]
  · simp [doc, responseDoc]
  · simp [doc, responseDoc]
  · simp only [doc, responseDoc, List.append_assoc, List.cons_append, List.nil_append]
    cases h.lines.isEmpty <;> simp
  · simp [doc, responseDoc]
  · simp [doc, responseDoc]

/-- A header that can be echoed is read back from the document of its response. -/
theorem parseHeader_responseDoc {payload : Bytes} (hech : Echoable h)
    (hread : P.deserialize payload = some (responseDoc h id clientInfo lastLog)) :
    parseHeader P payload = some h.withoutSetup := by
  obtain ⟨herror, horderId, hlogLevel, hsendLastLog, hsubInverterSn, hlines, hisInvSetup, hnoInv⟩ :=
    responseDoc_members h id clientInfo lastLog
  have harray : ∃ lines, parseLinesMember
      (if h.lines.isEmpty then .null else serializeLineArray h.lines) = some lines ∧
        lines.getD [] = h.lines := by
    cases he : h.lines.isEmpty with
    | false =>
        exact ⟨_, parseLinesMember_serializeLineArray hech.length hech.lines, rfl⟩
    | true => exact ⟨none, rfl, (List.isEmpty_iff.mp he).symm⟩
  obtain ⟨lines, hparse, hgot⟩ := harray
  simp only [parseHeader, hread, Option.bind_eq_bind, Option.bind_some, herror, horderId, hlogLevel,
    hsendLastLog, hsubInverterSn, hlines, hisInvSetup, hnoInv, hparse]
  rw [asStr?_unless_empty hech.error, (asStr?_flagged hech.orderId).1,
    (asStr?_flagged hech.orderId).2, (asStr?_flagged hech.logLevel).1,
    (asStr?_flagged hech.logLevel).2, (asInt32?_flagged hech.sendLastLog).1,
    (asInt32?_flagged hech.sendLastLog).2, (asStr?_flagged hech.subInverterSn).1,
    (asStr?_flagged hech.subInverterSn).2, hgot]
  rw [GbbHeader.withoutSetup, hech.emergency]
  rfl

end

/-! ## The echo -/

/-- A request that parsed, at any point of its batch: its response, if it is
complete, parses as the header as it is by then, without the fields about the
emergency set. -/
theorem response_echoes_request {P : Platform} {payload : Bytes} {h₀ : GbbHeader}
    (hparse : parseHeader P payload = some h₀) (c : BusConfig) (t : Nat) (e : ModbusExecutor)
    (calls : List BusCall) (id : GbbClientIdentity) (clientInfo : Bytes)
    (lastLog : Option Bytes) :
    let h := (after (ModbusExecutor.serve c) calls (ModbusExecutor.start t h₀ e).1).takeResult.1
    (buildResponse P h id clientInfo lastLog).length < jsonBuildTruncatedSize →
      P.deserialize (P.serialize (responseDoc h id clientInfo lastLog)) =
        some (responseDoc h id clientInfo lastLog) →
      parseHeader P (buildResponse P h id clientInfo lastLog) = some h.withoutSetup := by
  intro h hshort hread
  have hech : Echoable h := run_echoable c t e calls (parseHeader_echoable hparse)
  rw [buildResponse, P.buildJson_short] at hshort
  rw [buildResponse, P.buildJson_complete hshort]
  exact parseHeader_responseDoc h id clientInfo lastLog hech hread

/-- A request for one inverter, which is also to be set up: a line that is
answered, one with bad hex, and one the batch does not get to. -/
def echoDoc : Json :=
  .obj [("OrderId", .str (text "7")), ("SubInverterSN", .str []), ("IsInvSetup", .int 1),
    ("Lines", .arr [lineDoc 1 "01030204000345B2", lineDoc 2 "0103zz",
      lineDoc 3 "01030204000345B2"])]

/-- What its batch leaves of it. -/
def echoedHeader : GbbHeader :=
  (after (ModbusExecutor.serve {})
    [.poll ⟨[], 0, 10, 0⟩, .poll ⟨[0x01, 0x03, 0x02, 0x00, 0x05, 0x78, 0x47], 50, 50, 50⟩]
    (ModbusExecutor.start 0 ((parseHeader (bench [echoDoc]) echoDoc.render).getD {}) {}).1).takeResult.1

def echoIdentity : GbbClientIdentity :=
  ⟨text "dev", text "GbbDongle", text "GbbDongle", text "GbbDongle"⟩

/-- A log that spells members of its own. -/
def echoLog : Bytes := text "\"OrderId\":\"8\"\n"

def echoResponse : Json := responseDoc echoedHeader echoIdentity [] (some echoLog)

def echoDevice : Platform := bench [echoDoc, echoResponse]

theorem response_echoes_request_answered :
    parseHeader echoDevice (buildResponse echoDevice echoedHeader echoIdentity [] (some echoLog)) =
      some echoedHeader.withoutSetup := by
  have hread : echoDevice.deserialize (echoDevice.serialize echoResponse) = some echoResponse := by
    apply bench_roundTrip (by simp)
    intro other hmem hsame
    rcases List.mem_cons.mp hmem with rfl | hmem
    · exact absurd hsame (by decide +kernel)
    · exact List.mem_singleton.mp hmem
  have hparse : parseHeader echoDevice echoDoc.render =
      some ((parseHeader (bench [echoDoc]) echoDoc.render).getD {}) := by
    decide +kernel
  exact response_echoes_request hparse {} 0 {}
    [.poll ⟨[], 0, 10, 0⟩, .poll ⟨[0x01, 0x03, 0x02, 0x00, 0x05, 0x78, 0x47], 50, 50, 50⟩]
    echoIdentity [] (some echoLog) (by decide +kernel) hread

end Gbb
