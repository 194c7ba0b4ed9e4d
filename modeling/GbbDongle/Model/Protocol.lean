import GbbDongle.Lib.OrdMap
import GbbDongle.Model.Bytes

/-!
# The cloud protocol (`gbb_protocol.h`, `gbb_protocol.cpp`)

The payload of a message is a JSON document. Text and document are related by
ArduinoJson, which is not part of the firmware's source; it enters as the two
functions of `Platform`, and everything the firmware does itself happens on
documents: which members it looks at, which types it accepts, what it writes.

Optional fields keep the source's pair of a flag and a value. A value without
its flag is never looked at, but it is compared and copied, so it stays.
-/

namespace Gbb

/-! ## Documents -/

inductive Json
  | null
  | bool (b : Bool)
  | int (n : Int)
  | float (literal : Bytes)
  | str (s : Bytes)
  | arr (elems : List Json)
  | obj (members : List (String × Json))

namespace Json

/-- `doc["key"]`, null when the document is no object or has no such member. -/
def member : Json → String → Json
  | obj members, key => ((members.find? fun m => m.1 == key).map Prod.snd).getD null
  | _, _ => null

/-- `is<const char *>()` and then `as<const char *>()` into a `std::string`. -/
def asStr? : Json → Option Bytes
  | str s => some (cstr s)
  | _ => none

/-- `is<int32_t>()` and then `as<int32_t>()`. -/
def asInt32? : Json → Option Int32
  | int n => if -2 ^ 31 ≤ n ∧ n < 2 ^ 31 then some (Int32.ofInt n) else none
  | _ => none

/-- `is<int64_t>()` and then `as<int64_t>()`. -/
def asInt64? : Json → Option Int64
  | int n => if -2 ^ 63 ≤ n ∧ n < 2 ^ 63 then some (Int64.ofInt n) else none
  | _ => none

/-- `is<JsonArray>()` and then `as<JsonArray>()`. -/
def asArr? : Json → Option (List Json)
  | arr elems => some elems
  | _ => none

@[simp] theorem asInt32?_toInt (n : Int32) : asInt32? (int n.toInt) = some n := by
  rw [asInt32?, if_pos ⟨n.le_toInt, n.toInt_lt⟩, Int32.ofInt_toInt]

@[simp] theorem asInt64?_toInt (n : Int64) : asInt64? (int n.toInt) = some n := by
  rw [asInt64?, if_pos ⟨n.le_toInt, n.toInt_lt⟩, Int64.ofInt_toInt]

theorem asStr?_nulFree {j : Json} {s : Bytes} (h : j.asStr? = some s) : NulFree s := by
  cases j <;> simp only [asStr?, Option.some.injEq, reduceCtorEq] at h
  exact h ▸ nulFree_cstr _

end Json

/-- The library functions the firmware leans on: `deserializeJson` as
`json::parse_json` calls it (nothing for a parse error or a null document),
the complete text of a document, and `fnv1_hash`. -/
structure Platform where
  deserialize : Bytes → Option Json
  serialize : Json → Bytes
  fnv1Hash : Bytes → UInt32

/-- `JSON_BUILD_TRUNCATED_SIZE`. -/
def jsonBuildTruncatedSize : Nat := 5119

/-- `MAX_LINES_PER_ARRAY`. -/
def maxLinesPerArray : Nat := 50

/-- `MAX_TODEVICE_PAYLOAD`. -/
def maxToDevicePayload : Nat := 16 * 1024

/-- `CURR_PROTOCOL_VERSION`. -/
def currProtocolVersion : Int := 2

/-- `json::build_json`: the complete document when it is short enough, and
exactly `JSON_BUILD_TRUNCATED_SIZE` bytes of it otherwise. -/
def Platform.buildJson (P : Platform) (doc : Json) : Bytes :=
  if (P.serialize doc).length < jsonBuildTruncatedSize then P.serialize doc
  else (P.serialize doc).take jsonBuildTruncatedSize

theorem Platform.buildJson_short (P : Platform) {doc : Json} :
    (P.buildJson doc).length < jsonBuildTruncatedSize ↔
      (P.serialize doc).length < jsonBuildTruncatedSize := by
  rw [buildJson]
  split
  · rfl
  · next h =>
      rw [List.length_take]
      omega

theorem Platform.buildJson_complete (P : Platform) {doc : Json}
    (h : (P.serialize doc).length < jsonBuildTruncatedSize) :
    P.buildJson doc = P.serialize doc := if_pos h

/-! ## Lines and headers -/

/-- `GbbLine`. -/
structure GbbLine where
  lineNo : Int32 := 0
  hasTag : Bool := false
  tag : Bytes := []
  hasTimestamp : Bool := false
  timestamp : Int64 := 0
  hasModbus : Bool := false
  modbus : Bytes := []
  error : Bytes := []
deriving DecidableEq, Inhabited

/-- A line that carries a Modbus payload; the executor skips the others. -/
def GbbLine.carries (l : GbbLine) : Bool := l.hasModbus && !l.modbus.isEmpty

/-- What the response has to give back of a line. -/
def GbbLine.echo (l : GbbLine) : Int32 × Option Bytes × Option Int64 :=
  (l.lineNo, if l.hasTag then some l.tag else none,
    if l.hasTimestamp then some l.timestamp else none)

/-- `GbbHeader`. -/
structure GbbHeader where
  error : Bytes := []
  hasOrderId : Bool := false
  orderId : Bytes := []
  hasLogLevel : Bool := false
  logLevel : Bytes := []
  hasSendLastLog : Bool := false
  sendLastLog : Int32 := 0
  hasSubInverterSn : Bool := false
  subInverterSn : Bytes := []
  lines : List GbbLine := []
  hasIsInvSetup : Bool := false
  isInvSetup : Int32 := 0
  hasLinesOnNoInvSetup : Bool := false
  linesOnNoInvSetup : List GbbLine := []
  emergency : Bool := false
deriving DecidableEq, Inhabited

/-- What is left of a header whose contents were moved out: the flags and
numbers are copied, the strings and vectors are empty. -/
def GbbHeader.movedFrom (h : GbbHeader) : GbbHeader :=
  { h with
    error := [], orderId := [], logLevel := [], subInverterSn := [], lines := [],
    linesOnNoInvSetup := [] }

/-- The header counts as inverter setup: `has_is_inv_setup && is_inv_setup != 0`. -/
def GbbHeader.invSetup (h : GbbHeader) : Bool := h.hasIsInvSetup && h.isInvSetup != 0

/-- The key of the emergency set a message addresses: the trimmed
`SubInverterSN`, the empty string being the master. -/
def GbbHeader.setKey (h : GbbHeader) : Bytes :=
  if h.hasSubInverterSn then strTrimCopy h.subInverterSn else []

/-! ## Parsing -/

/-- One element of a line array. -/
def parseLine (o : Json) : GbbLine where
  lineNo := (o.member "LineNo").asInt32?.getD 0
  hasTag := (o.member "Tag").asStr?.isSome
  tag := (o.member "Tag").asStr?.getD []
  hasTimestamp := (o.member "Timestamp").asInt64?.isSome
  timestamp := (o.member "Timestamp").asInt64?.getD 0
  hasModbus := (o.member "Modbus").asStr?.isSome
  modbus := (o.member "Modbus").asStr?.getD []
  error := (o.member "Error").asStr?.getD []

/-- `parse_line_array` into an empty vector; nothing when there are too many
elements. -/
def parseLineArray (elems : List Json) : Option (List GbbLine) :=
  if elems.length > maxLinesPerArray then none else some (elems.map parseLine)

/-- A member that may hold a line array: absent, read, or over the limit. -/
def parseLinesMember (j : Json) : Option (Option (List GbbLine)) :=
  match j.asArr? with
  | none => some none
  | some elems => (parseLineArray elems).map some

/-- `parse_header`. -/
def parseHeader (P : Platform) (payload : Bytes) : Option GbbHeader := do
  let root ← P.deserialize payload
  let lines ← parseLinesMember (root.member "Lines")
  let noInv ← parseLinesMember (root.member "LinesOnNoInvSetup")
  some
    { error := (root.member "Error").asStr?.getD []
      hasOrderId := (root.member "OrderId").asStr?.isSome
      orderId := (root.member "OrderId").asStr?.getD []
      hasLogLevel := (root.member "LogLevel").asStr?.isSome
      logLevel := (root.member "LogLevel").asStr?.getD []
      hasSendLastLog := (root.member "SendLastLog").asInt32?.isSome
      sendLastLog := (root.member "SendLastLog").asInt32?.getD 0
      hasSubInverterSn := (root.member "SubInverterSN").asStr?.isSome
      subInverterSn := (root.member "SubInverterSN").asStr?.getD []
      lines := lines.getD []
      hasIsInvSetup := (root.member "IsInvSetup").asInt32?.isSome
      isInvSetup := (root.member "IsInvSetup").asInt32?.getD 0
      hasLinesOnNoInvSetup := noInv.isSome
      linesOnNoInvSetup := noInv.getD [] }

/-! ## Serializing -/

/-- A member that is written only under a condition. -/
def optMember (c : Bool) (key : String) (value : Json) : List (String × Json) :=
  if c then [(key, value)] else []

/-- One element of `serialize_line_array`. -/
def serializeLine (l : GbbLine) : Json :=
  .obj <|
    [("LineNo", .int l.lineNo.toInt)] ++
    optMember l.hasTag "Tag" (.str l.tag) ++
    optMember l.hasTimestamp "Timestamp" (.int l.timestamp.toInt) ++
    optMember l.hasModbus "Modbus" (.str l.modbus) ++
    optMember (!l.error.isEmpty) "Error" (.str l.error)

/-- `serialize_line_array`. -/
def serializeLineArray (lines : List GbbLine) : Json := .arr (lines.map serializeLine)

/-- `GbbClientIdentity`. -/
structure GbbClientIdentity where
  version : Bytes
  environment : Bytes
  clientName : Bytes
  clientEnvironment : Bytes

/-- The document of `build_response`. -/
def responseDoc (h : GbbHeader) (id : GbbClientIdentity) (clientInfo : Bytes)
    (lastLog : Option Bytes) : Json :=
  .obj <|
    optMember (!h.error.isEmpty) "Error" (.str h.error) ++
    optMember h.hasOrderId "OrderId" (.str h.orderId) ++
    optMember h.hasLogLevel "LogLevel" (.str h.logLevel) ++
    optMember h.hasSendLastLog "SendLastLog" (.int h.sendLastLog.toInt) ++
    optMember h.hasSubInverterSn "SubInverterSN" (.str h.subInverterSn) ++
    optMember (!h.lines.isEmpty) "Lines" (serializeLineArray h.lines) ++
    [("ProtocolVersion", .int currProtocolVersion),
      ("GbbVersion", .str id.version),
      ("GbbEnvironment", .str id.environment),
      ("ClientVersion", .str id.version),
      ("ClientEnvironment", .str id.clientEnvironment),
      ("ClientName", .str id.clientName)] ++
    optMember (!clientInfo.isEmpty) "ClientInfo" (.str clientInfo) ++
    optMember lastLog.isSome "LastLog" (.str (lastLog.getD []))

/-- `build_response`. -/
def buildResponse (P : Platform) (h : GbbHeader) (id : GbbClientIdentity)
    (clientInfo : Bytes) (lastLog : Option Bytes) : Bytes :=
  P.buildJson (responseDoc h id clientInfo lastLog)

/-! ## The emergency sets -/

/-- `std::map<std::string, std::vector<GbbLine>>`. -/
abbrev Sets := OrdMap Bytes (List GbbLine)

/-- One element of the `Sets` array. -/
def setDoc (e : Bytes × List GbbLine) : Json :=
  .obj [("SubInverterSN", .str e.1), ("Lines", serializeLineArray e.2)]

/-- The document of `build_emergency_sets`. -/
def setsDoc (sets : Sets) : Json := .obj [("Sets", .arr (sets.entries.map setDoc))]

/-- `build_emergency_sets`. -/
def buildEmergencySets (P : Platform) (sets : Sets) : Bytes := P.buildJson (setsDoc sets)

/-- The loop of `parse_emergency_sets` over the `Sets` array. -/
def parseSets : List Json → Sets → Option Sets
  | [], out => some out
  | o :: rest, out =>
      match parseLinesMember (o.member "Lines") with
      | none => none
      | some lines =>
          let sn := (o.member "SubInverterSN").asStr?.getD []
          parseSets rest
            (if (lines.getD []).isEmpty then out else out.insert sn (lines.getD []))

/-- `parse_emergency_sets`; a caller that gets nothing clears the map. -/
def parseEmergencySets (P : Platform) (payload : Bytes) (out : Sets) : Option Sets := do
  let root ← P.deserialize payload
  let elems ← (root.member "Sets").asArr?
  parseSets elems out

end Gbb
