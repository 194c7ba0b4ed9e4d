import GbbDongle.Model.Exchange
import GbbDongle.Proofs.Account
import GbbDongle.Proofs.Crc
import GbbDongle.Proofs.Echo

/-!
# The tool and the dongle talk

A request of the bus scan goes through two libraries and two programs: it is
marshalled in Go, parsed and run by the firmware, answered by a document of the
firmware's, and unmarshalled in Go again.
-/

namespace Gbb

open History ModbusExecutor

/-! ## Documents with their texts replaced -/

mutual
/-- The document with every text in it replaced. -/
def Json.mapText (f : Bytes → Bytes) : Json → Json
  | .null => .null
  | .bool b => .bool b
  | .int n => .int n
  | .float literal => .float literal
  | .str s => .str (f s)
  | .arr elems => .arr (Json.mapElems f elems)
  | .obj members => .obj (Json.mapMembers f members)

def Json.mapElems (f : Bytes → Bytes) : List Json → List Json
  | [] => []
  | j :: rest => j.mapText f :: Json.mapElems f rest

def Json.mapMembers (f : Bytes → Bytes) : List (String × Json) → List (String × Json)
  | [] => []
  | (key, j) :: rest => (key, j.mapText f) :: Json.mapMembers f rest
end

variable {P : Platform} {f : Bytes → Bytes}

theorem Json.mapElems_map {α : Type} (g : α → Json) (l : List α) :
    Json.mapElems f (l.map g) = l.map fun x => (g x).mapText f := by
  induction l with
  | nil => rfl
  | cons x rest ih => rw [List.map_cons, Json.mapElems, ih, List.map_cons]

@[simp] theorem Json.mapMembers_append (a b : List (String × Json)) :
    Json.mapMembers f (a ++ b) = Json.mapMembers f a ++ Json.mapMembers f b := by
  induction a with
  | nil => rfl
  | cons e rest ih =>
      obtain ⟨key, j⟩ := e
      rw [List.cons_append, Json.mapMembers, ih, Json.mapMembers, List.cons_append]

@[simp] theorem Json.mapMembers_optMember (b : Bool) (key : String) (j : Json) :
    Json.mapMembers f (optMember b key j) = optMember b key (j.mapText f) := by
  cases b <;> rfl

namespace Busscan

/-! ## What the tool reads of a response -/

/-- A line of a response, as the tool has it. -/
def Line.ofGbb (f : Bytes → Bytes) (l : GbbLine) : Line where
  lineNo := Int64.ofInt l.lineNo.toInt
  tag := if l.hasTag then f l.tag else []
  timestamp := if l.hasTimestamp then l.timestamp else 0
  modbus := if l.hasModbus then f l.modbus else []
  error := if l.error.isEmpty then [] else f l.error

theorem foldlM_optMember {σ : Type} (step : σ → String × Json → Option σ) (b : Bool) (key : String)
    (j : Json) (s : σ) :
    (optMember b key j).foldlM step s = if b then step s (key, j) else some s := by
  cases b with
  | false => rfl
  | true =>
      show (step s (key, j)).bind some = step s (key, j)
      cases step s (key, j) <;> rfl

theorem intoInt_toInt64 (n old : Int64) : intoInt (.int n.toInt) old = some n := by
  rw [intoInt, if_pos ⟨n.le_toInt, n.toInt_lt⟩, Int64.ofInt_toInt]

theorem intoInt_toInt32 (n : Int32) (old : Int64) :
    intoInt (.int n.toInt) old = some (Int64.ofInt n.toInt) := by
  have hle := n.le_toInt
  have hlt := n.toInt_lt
  rw [intoInt, if_pos]
  omega

/-! The fields of a line are told apart by their names. -/

theorem intoField_lineNo (j : Json) (l : Line) :
    intoField "LineNo" j l = (intoInt j l.lineNo).map fun n => { l with lineNo := n } := by
  rw [intoField, if_pos (by decide)]

theorem intoField_tag (j : Json) (l : Line) :
    intoField "Tag" j l = (intoString j l.tag).map fun s => { l with tag := s } := by
  rw [intoField, if_neg (by decide), if_pos (by decide)]

theorem intoField_timestamp (j : Json) (l : Line) :
    intoField "Timestamp" j l =
      (intoInt j l.timestamp).map fun n => { l with timestamp := n } := by
  rw [intoField, if_neg (by decide), if_neg (by decide), if_pos (by decide)]

theorem intoField_modbus (j : Json) (l : Line) :
    intoField "Modbus" j l = (intoString j l.modbus).map fun s => { l with modbus := s } := by
  rw [intoField, if_neg (by decide), if_neg (by decide), if_neg (by decide), if_pos (by decide)]

theorem intoField_error (j : Json) (l : Line) :
    intoField "Error" j l = (intoString j l.error).map fun s => { l with error := s } := by
  rw [intoField, if_neg (by decide), if_neg (by decide), if_neg (by decide), if_neg (by decide),
    if_pos (by decide)]

theorem intoLine_serializeLine (l : GbbLine) :
    intoLine ((serializeLine l).mapText f) {} = some (Line.ofGbb f l) := by
  rw [serializeLine, Json.mapText, intoLine, Line.ofGbb]
  simp only [Json.mapMembers_append, Json.mapMembers_optMember, List.foldlM_append,
    foldlM_optMember, Json.mapMembers, Json.mapText, List.foldlM_cons, List.foldlM_nil,
    intoField_lineNo, intoField_tag, intoField_timestamp, intoField_modbus, intoField_error,
    intoInt_toInt32, intoInt_toInt64, intoString, Option.map_some, Option.bind_eq_bind,
    Option.bind_some, Option.pure_def]
  cases l.hasTag <;> cases l.hasTimestamp <;> cases l.hasModbus <;> cases l.error.isEmpty <;> rfl

theorem intoElems_serialize (lines : List GbbLine) :
    intoElems (lines.map fun l => (serializeLine l).mapText f) [] =
      some (lines.map (Line.ofGbb f), []) := by
  induction lines with
  | nil => rfl
  | cons l rest ih =>
      rw [List.map_cons, List.map_cons, intoElems, List.headD_nil, intoLine_serializeLine,
        List.tail_nil, ih]
      rfl

theorem intoHeader_orderId (j : Json) (h : Header) :
    intoHeader "OrderId" j h = (intoString j h.orderId).map fun s => { h with orderId := s } := by
  rw [intoHeader, if_pos (by decide)]

theorem intoHeader_sendLastLog (j : Json) (h : Header) :
    intoHeader "SendLastLog" j h =
      (intoInt j h.sendLastLog).map fun n => { h with sendLastLog := n } := by
  rw [intoHeader, if_neg (by decide), if_pos (by decide)]

theorem intoHeader_lines (j : Json) (h : Header) : intoHeader "Lines" j h = intoLines j h := by
  rw [intoHeader, if_neg (by decide), if_neg (by decide), if_pos (by decide)]

/-- The members of a response that are no field of the tool's header. -/
def otherMembers : List String :=
  ["Error", "LogLevel", "SubInverterSN", "ProtocolVersion", "GbbVersion", "GbbEnvironment",
    "ClientVersion", "ClientEnvironment", "ClientName", "ClientInfo", "LastLog"]

theorem intoHeader_other {key : String} (hk : key ∈ otherMembers) (j : Json) (h : Header) :
    intoHeader key j h = some h := by
  have hno : ∀ key ∈ otherMembers, ¬ sameName key "OrderId" = true ∧
      ¬ sameName key "SendLastLog" = true ∧ ¬ sameName key "Lines" = true := by decide
  obtain ⟨h1, h2, h3⟩ := hno key hk
  rw [intoHeader, if_neg h1, if_neg h2, if_neg h3]

/-- The header the tool has of a response. -/
def Header.ofGbb (f : Bytes → Bytes) (h : GbbHeader) : Header where
  orderId := if h.hasOrderId then f h.orderId else []
  sendLastLog := if h.hasSendLastLog then Int64.ofInt h.sendLastLog.toInt else 0
  lines := h.lines.map (Line.ofGbb f)

theorem intoLines_serialize (lines : List GbbLine) (h : Header) (hold : h.lines = [])
    (hspare : h.spare = []) :
    intoLines ((serializeLineArray lines).mapText f) h =
      some { h with lines := lines.map (Line.ofGbb f), spare := [] } := by
  rw [serializeLineArray, Json.mapText, Json.mapElems_map]
  cases lines with
  | nil => rfl
  | cons l rest =>
      have hall := intoElems_serialize (f := f) (l :: rest)
      rw [List.map_cons] at hall ⊢
      rw [intoLines, hold, hspare, List.append_nil, hall]
      rfl
      simp

theorem ofDoc_responseDoc (h : GbbHeader) (id : GbbClientIdentity) (clientInfo : Bytes)
    (lastLog : Option Bytes) :
    Header.ofDoc ((responseDoc h id clientInfo lastLog).mapText f) = some (Header.ofGbb f h) := by
  have hother : ∀ key ∈ otherMembers, ∀ (j : Json) (h : Header), intoHeader key j h = some h :=
    fun key hk => intoHeader_other hk
  simp only [otherMembers, List.forall_mem_cons, List.not_mem_nil] at hother
  rw [responseDoc, Json.mapText, Header.ofDoc, Header.ofGbb]
  simp only [Json.mapMembers_append, Json.mapMembers_optMember, List.foldlM_append,
    foldlM_optMember, Json.mapMembers, Json.mapText, List.foldlM_cons, List.foldlM_nil, hother,
    intoHeader_orderId, intoHeader_sendLastLog, intoHeader_lines, intoInt_toInt32, intoString,
    Option.map_some, Option.bind_eq_bind, Option.bind_some, Option.pure_def, ite_self]
  have hread : ∀ init : Header, init.lines = [] → init.spare = [] →
      (if h.lines = [] then some init
        else intoLines ((serializeLineArray h.lines).mapText f) init) =
        some { init with lines := h.lines.map (Line.ofGbb f), spare := [] } := by
    intro init hold hspare
    split
    · next hnone =>
        obtain ⟨orderId, sendLastLog, lines, spare⟩ := init
        subst hold hspare
        rw [hnone]
        rfl
    · exact intoLines_serialize h.lines init hold hspare
  cases h.hasOrderId <;> cases h.hasSendLastLog <;> simp [hread]

/-! ## Order ids -/

def Ascii (s : Bytes) : Prop := ∀ b ∈ s, b < 128

instance (s : Bytes) : Decidable (Ascii s) := inferInstanceAs (Decidable (∀ b ∈ s, b < 128))

theorem decimal_eq (n : Nat) :
    decimal n = (Nat.toDigits 10 n).map fun ch => UInt8.ofNat ch.toNat := by
  rw [decimal, text]
  simp [toString, Nat.repr]

theorem digit_range {ch : Char} {n : Nat} (h : ch ∈ Nat.toDigits 10 n) :
    48 ≤ ch.toNat ∧ ch.toNat ≤ 57 := by
  have hdigit := Nat.isDigit_of_mem_toDigits (by decide) (by decide) h
  simpa [Char.isDigit, UInt32.le_iff_toNat_le] using hdigit

theorem decimal_range {n : Nat} {b : UInt8} (h : b ∈ decimal n) : 48 ≤ b ∧ b ≤ 57 := by
  rw [decimal_eq] at h
  obtain ⟨ch, hch, rfl⟩ := List.mem_map.mp h
  obtain ⟨hle, hge⟩ := digit_range hch
  simp only [UInt8.le_iff_toNat_le, UInt8.toNat_ofNat']
  constructor
  · show 48 ≤ _
    omega
  · show _ ≤ 57
    omega

theorem decimal_injective {n k : Nat} (h : decimal n = decimal k) : n = k := by
  have hback : ∀ j, (decimal j).map (fun b => Char.ofNat b.toNat) = Nat.toDigits 10 j := by
    intro j
    rw [decimal_eq, List.map_map]
    refine (List.map_congr_left fun ch hch => ?_).trans (List.map_id _)
    obtain ⟨-, hge⟩ := digit_range hch
    have hsmall : ch.toNat % 2 ^ 8 = ch.toNat := Nat.mod_eq_of_lt (by omega)
    show Char.ofNat (UInt8.ofNat ch.toNat).toNat = ch
    rw [UInt8.toNat_ofNat', hsmall, Char.ofNat_toNat]
  have hdigits : Nat.toDigits 10 n = Nat.toDigits 10 k := by rw [← hback, ← hback, h]
  rw [← Nat.ofDigitChars_ten_toDigits (n := n), hdigits, Nat.ofDigitChars_ten_toDigits]

theorem orderId_injective {j k : UInt64} (h : orderId j = orderId k) : j = k := by
  rw [orderId, orderId, List.append_cancel_left_eq] at h
  exact UInt64.toNat_inj.mp (decimal_injective h)

theorem orderId_range {k : UInt64} {b : UInt8} (h : b ∈ orderId k) : 0 < b ∧ b < 128 := by
  have hname : ∀ b ∈ text "busscan-", 0 < b ∧ b < 128 := by decide +kernel
  rcases List.mem_append.mp h with h | h
  · exact hname b h
  · obtain ⟨hle, hge⟩ := decimal_range h
    rw [UInt8.le_iff_toNat_le] at hle hge
    rw [UInt8.lt_iff_toNat_lt, UInt8.lt_iff_toNat_lt]
    have h48 : (48 : UInt8).toNat = 48 := rfl
    have h57 : (57 : UInt8).toNat = 57 := rfl
    have h128 : (128 : UInt8).toNat = 128 := rfl
    have h0 : (0 : UInt8).toNat = 0 := rfl
    omega

theorem orderId_ascii (k : UInt64) : Ascii (orderId k) := fun _ h => (orderId_range h).2

theorem orderId_nulFree (k : UInt64) : NulFree (orderId k) := fun h =>
  absurd (orderId_range h).1 (lt_irrefl 0)

/-! ## The request, as the dongle has it -/

/-- The line of a request. -/
def toolLine (unix : Int64) (frameHex : Bytes) : GbbLine where
  hasTag := true
  tag := text "busscan"
  hasTimestamp := true
  timestamp := unix
  hasModbus := true
  modbus := frameHex

theorem parseLine_request (unix : Int64) {frameHex : Bytes} (hnul : NulFree frameHex)
    (hne : frameHex ≠ []) :
    parseLine (Line.doc { tag := text "busscan", timestamp := unix, modbus := frameHex }) =
      toolLine unix frameHex := by
  have hmodbus : (!frameHex.isEmpty) = true := by simpa using hne
  have hdoc : Line.doc { tag := text "busscan", timestamp := unix, modbus := frameHex } =
      .obj [("LineNo", .int 0), ("Tag", .str (text "busscan")), ("Timestamp", .int unix.toInt),
        ("Modbus", .str frameHex)] := by
    rw [Line.doc, hmodbus]
    rfl
  generalize hd : Line.doc { tag := text "busscan", timestamp := unix, modbus := frameHex } = doc
    at hdoc
  have hlineNo : doc.member "LineNo" = .int 0 := by rw [hdoc]; rfl
  have htag : doc.member "Tag" = .str (text "busscan") := by rw [hdoc]; rfl
  have htimestamp : doc.member "Timestamp" = .int unix.toInt := by rw [hdoc]; rfl
  have hhex : doc.member "Modbus" = .str frameHex := by rw [hdoc]; rfl
  have herror : doc.member "Error" = .null := by rw [hdoc]; rfl
  rw [parseLine, hlineNo, htag, htimestamp, hhex, herror, Json.asInt64?_toInt, Json.asStr?,
    Json.asStr?, cstr_of_nulFree hnul]
  rfl

theorem acceptedHeader_request {payload : Bytes} {k : UInt64} {unix : Int64} {frameHex : Bytes}
    {header : GbbHeader} (hread : P.deserialize payload = some (request k unix frameHex).doc)
    (hnul : NulFree frameHex) (hne : frameHex ≠ [])
    (haccepted : acceptedHeader P payload = some header) :
    header.hasOrderId = true ∧ header.orderId = orderId k ∧
      header.lines = [toolLine unix frameHex] := by
  rw [acceptedHeader] at haccepted
  split at haccepted
  · cases haccepted
  · have hid : (request k unix frameHex).doc.member "OrderId" = .str (orderId k) := rfl
    have hlines : (request k unix frameHex).doc.member "Lines" =
        .arr [Line.doc { tag := text "busscan", timestamp := unix, modbus := frameHex }] := rfl
    have hnoInv : (request k unix frameHex).doc.member "LinesOnNoInvSetup" = .null := rfl
    have hone : parseLineArray [Line.doc
        { tag := text "busscan", timestamp := unix, modbus := frameHex }] =
        some [toolLine unix frameHex] := by
      rw [parseLineArray, if_neg (by simp [maxLinesPerArray]), List.map_singleton,
        parseLine_request unix hnul hne]
    simp only [parseHeader, hread, Option.bind_eq_bind, Option.bind_some, hid, hlines, hnoInv,
      parseLinesMember, Json.asArr?, hone, Option.map_some, Json.asStr?,
      cstr_of_nulFree (orderId_nulFree k)] at haccepted
    obtain rfl := Option.some.inj haccepted
    exact ⟨rfl, rfl, rfl⟩

/-! ## The answer -/

/-- What a batch of one line comes to. -/
inductive Settled (line : GbbLine) (frames replies : List Bytes) (lines : List GbbLine) : Prop
  | answered (frame reply : Bytes) (sent : hexDecode line.modbus = some frame)
      (frames_eq : frames = [frame]) (replies_eq : replies = [reply]) (length : 4 ≤ reply.length)
      (crc : crcOk reply = true) (lines_eq : lines = [{ line with modbus := bytesToHex reply }])
  | failed (fault : LineFault) (tried : Tried fault line frames) (replies_eq : replies = [])
      (lines_eq : lines = [failedLine fault line])

theorem settled_of_finished {line : GbbLine} {errors : UInt32} {frames replies : List Bytes}
    {e : ModbusExecutor} (hc : line.carries = true)
    (h : Finished [line] errors frames replies e) :
    Settled line frames replies e.header.lines := by
  cases h with
  | through hx =>
      generalize e.header.lines = lines at hx ⊢
      cases hx with
      | skipped hno => exact absurd (hc.symm.trans hno) (by decide)
      | answered _ hhex hlen hcrc hrest =>
          cases hrest
          exact .answered _ _ hhex rfl rfl hlen hcrc rfl
  | broken pre settled rest l fault horig hcarries hx htried hlines =>
      cases pre with
      | nil =>
          cases hx
          obtain ⟨rfl, rfl⟩ := List.cons.inj horig
          exact .failed fault htried rfl hlines
      | cons l' pre =>
          have hlen := congrArg List.length horig
          simp at hlen

theorem bytesToHex_ascii (b : Bytes) : Ascii (bytesToHex b) := by
  have hdigit (n : UInt8) : n < 16 → hexDigit n < 128 :=
    forall_byte (p := fun n => n < 16 → hexDigit n < 128) (by decide +kernel) n
  induction b with
  | nil =>
      intro x hx
      cases hx
  | cons x rest ih =>
      obtain ⟨hhigh, hlow, -⟩ := nibbles_of_byte x
      intro y hy
      rw [bytesToHex] at hy
      rcases List.mem_cons.mp hy with rfl | hy
      · exact hdigit _ hhigh
      · rcases List.mem_cons.mp hy with rfl | hy
        · exact hdigit _ hlow
        · exact ih y hy

/-- The two libraries understand each other. `coerce` is what Go does to a text
that is not UTF-8. -/
structure Speaks (G : GoJson) (P : Platform) (coerce : Bytes → Bytes) : Prop where
  /-- If the dongle can read a request, it reads what was asked. -/
  toDongle : ∀ k unix addr start count j,
    P.deserialize (G.marshal (request k unix (buildRead addr start count)).doc) = some j →
    j = (request k unix (buildRead addr start count)).doc
  /-- If the tool can read a response, it reads what was answered. -/
  toTool : ∀ h id clientInfo lastLog j,
    G.unmarshal (P.serialize (responseDoc h id clientInfo lastLog)) = some j →
    j = (responseDoc h id clientInfo lastLog).mapText coerce
  /-- ASCII is UTF-8. -/
  ascii : ∀ s, Ascii s → coerce s = s
  /-- U+FFFD is not ASCII. -/
  coerced : ∀ s, Ascii (coerce s) → coerce s = s

/-- A request is accepted as what was asked. -/
theorem accepted_request {G : GoJson} {coerce : Bytes → Bytes} (hs : Speaks G P coerce)
    {k : UInt64} {unix : Int64} {addr : UInt8} {start count : UInt16} {header : GbbHeader}
    (haccepted : acceptedHeader P
      (G.marshal (request k unix (buildRead addr start count)).doc) = some header) :
    header.orderId = orderId k ∧ header.lines = [toolLine unix (buildRead addr start count)] := by
  cases hj : P.deserialize (G.marshal (request k unix (buildRead addr start count)).doc) with
  | none =>
      rw [acceptedHeader, parseHeader, hj] at haccepted
      split at haccepted <;> cases haccepted
  | some j =>
      rw [hs.toDongle k unix addr start count j hj] at hj
      have hnul : NulFree (buildRead addr start count) := nulFree_bytesToHex _
      have hne : buildRead addr start count ≠ [] := by
        rw [buildRead]
        simp [bytesToHex]
      obtain ⟨-, horder, hlines⟩ := acceptedHeader_request hj hnul hne haccepted
      exact ⟨horder, hlines⟩

/-- What the tool reads in a response, if anything: whether it is meant, and
then what its first line says. -/
theorem readResponse_of_published {G : GoJson} {coerce : Bytes → Bytes} (hs : Speaks G P coerce)
    {h : GbbHeader} {id : GbbClientIdentity} {clientInfo : Bytes} {lastLog : Option Bytes}
    {k : UInt64}
    (hread : readResponse G (orderId k) (P.serialize (responseDoc h id clientInfo lastLog)) ≠
      .ignored) :
    h.hasOrderId = true ∧ h.orderId = orderId k ∧
      readResponse G (orderId k) (P.serialize (responseDoc h id clientInfo lastLog)) =
        readHeader (orderId k) (Header.ofGbb coerce h) := by
  rw [readResponse] at hread ⊢
  cases hj : G.unmarshal (P.serialize (responseDoc h id clientInfo lastLog)) with
  | none =>
      rw [hj] at hread
      exact absurd rfl hread
  | some j =>
      rw [hj] at hread
      rw [Option.bind_some, hs.toTool h id clientInfo lastLog j hj, ofDoc_responseDoc] at hread ⊢
      have hmeant : (Header.ofGbb coerce h).orderId = orderId k := by
        by_contra hne
        exact hread (if_pos hne)
      have hid : h.hasOrderId = true := by
        by_contra hno
        have hempty : (Header.ofGbb coerce h).orderId = [] := if_neg hno
        rw [hempty] at hmeant
        exact absurd hmeant (by simp [orderId, text])
      have hcoerced : coerce h.orderId = orderId k := by
        rw [← hmeant, Header.ofGbb, if_pos hid]
      refine ⟨hid, ?_, rfl⟩
      rw [← hcoerced]
      refine (hs.coerced _ ?_).symm
      rw [hcoerced]
      exact orderId_ascii k

theorem readHeader_answered {G : GoJson} {coerce : Bytes → Bytes} (hs : Speaks G P coerce)
    {h : GbbHeader} {k : UInt64} {line : GbbLine} {reply : Bytes} (hid : h.hasOrderId = true)
    (horder : h.orderId = orderId k) (hflag : line.hasModbus = true) (herror : line.error = [])
    (hlines : h.lines = [{ line with modbus := bytesToHex reply }]) :
    readHeader (orderId k) (Header.ofGbb coerce h) = .answer reply := by
  have hmeant : (Header.ofGbb coerce h).orderId = orderId k := by
    rw [Header.ofGbb, if_pos hid, horder, hs.ascii _ (orderId_ascii k)]
  have hfirst : (Header.ofGbb coerce h).lines =
      [Line.ofGbb coerce { line with modbus := bytesToHex reply }] := by
    rw [Header.ofGbb, hlines]
    rfl
  have hnone : (Line.ofGbb coerce { line with modbus := bytesToHex reply }).error = [] := by
    rw [Line.ofGbb, herror]
    rfl
  have hhex : (Line.ofGbb coerce { line with modbus := bytesToHex reply }).modbus =
      bytesToHex reply := by
    rw [Line.ofGbb, hflag, if_pos rfl, hs.ascii _ (bytesToHex_ascii reply)]
  rw [readHeader, if_neg (not_not.mpr hmeant), hfirst]
  dsimp only
  rw [if_neg (not_not.mpr hnone), hhex, hexDecode_bytesToHex]

theorem readHeader_failed {G : GoJson} {coerce : Bytes → Bytes} (hs : Speaks G P coerce)
    {h : GbbHeader} {k : UInt64} {line : GbbLine} {fault : LineFault} (hid : h.hasOrderId = true)
    (horder : h.orderId = orderId k) (hlines : h.lines = [failedLine fault line]) :
    readHeader (orderId k) (Header.ofGbb coerce h) = .reported fault.message := by
  have hmeant : (Header.ofGbb coerce h).orderId = orderId k := by
    rw [Header.ofGbb, if_pos hid, horder, hs.ascii _ (orderId_ascii k)]
  have hfirst : (Header.ofGbb coerce h).lines = [Line.ofGbb coerce (failedLine fault line)] := by
    rw [Header.ofGbb, hlines]
    rfl
  have htext : Ascii fault.message ∧ fault.message ≠ [] := by
    cases fault <;> decide +kernel
  have herror : (Line.ofGbb coerce (failedLine fault line)).error = fault.message := by
    show (if fault.message.isEmpty = true then [] else coerce fault.message) = fault.message
    rw [if_neg (by simpa using htext.2), hs.ascii _ htext.1]
  rw [readHeader, if_neg (not_not.mpr hmeant), hfirst]
  dsimp only
  rw [herror, if_pos htext.2]

end Busscan
end Gbb
