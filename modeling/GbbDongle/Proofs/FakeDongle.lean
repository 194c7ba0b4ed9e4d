import GbbDongle.Model.FakeDongle
import GbbDongle.Proofs.Crc
import GbbDongle.Proofs.Network
import GbbDongle.Proofs.Scan

/-!
# The scan finds what is simulated

The scan and its simulator are two programs in two languages that know of each
other by the frames alone. Everything one of them writes the other has to take
apart: the request with its order id, the hex text, the CRC, registers as pairs
of bytes, the serial number spread over five of them. `scan_finds_devices` says
that nothing is lost on the way: whatever table the simulator is given, a scan
reports the table.
-/

namespace Gbb.FakeDongle

open Busscan

variable {devices : Devices} {dev : Device} {addr : UInt8} {start count : UInt16} {r : Nat}

/-! ## Numbers as bytes -/

theorem shift_or (hi lo : UInt8) : (hi.toNat <<< 8) ||| lo.toNat = hi.toNat * 256 + lo.toNat := by
  rw [← Nat.shiftLeft_add_eq_or_of_lt lo.toNat_lt, Nat.shiftLeft_eq]

/-- A register as Go puts it together. -/
theorem word_toNat (hi lo : UInt8) :
    ((hi.toUInt16 <<< 8) ||| lo.toUInt16).toNat = hi.toNat * 256 + lo.toNat := by
  have hhi := hi.toNat_lt
  have hfits : hi.toNat * 256 % 65536 = hi.toNat * 256 := Nat.mod_eq_of_lt (by omega)
  rw [← shift_or]
  simp [Nat.shiftLeft_eq, hfits]

/-- The two bytes of a register. -/
def pair (r : Nat) : Bytes := [UInt8.ofNat (r / 256), UInt8.ofNat (r % 256)]

theorem toBytes_eq (h : r < 65536) : toBytes r = some (pair r) := if_pos h

theorem pair_word (hi lo : UInt8) : pair ((hi.toNat <<< 8) ||| lo.toNat) = [hi, lo] := by
  have hlo := lo.toNat_lt
  have hdiv : (hi.toNat * 256 + lo.toNat) / 256 = hi.toNat := by omega
  have hmod : (hi.toNat * 256 + lo.toNat) % 256 = lo.toNat := by omega
  rw [pair, shift_or, hdiv, hmod, UInt8.ofNat_toNat, UInt8.ofNat_toNat]

/-- What Go reads in a register that Python wrote. -/
theorem word_pair (h : r < 65536) :
    ((UInt8.ofNat (r / 256)).toUInt16 <<< 8) ||| (UInt8.ofNat (r % 256)).toUInt16 =
      UInt16.ofNat r := by
  apply UInt16.toNat_inj.mp
  rw [word_toNat, UInt8.toNat_ofNat_of_lt' (show r / 256 < 2 ^ 8 by omega),
    UInt8.toNat_ofNat_of_lt' (show r % 256 < 2 ^ 8 by omega), UInt16.toNat_ofNat_of_lt' h]
  omega

/-- And what Python reads in one that Go wrote. -/
theorem fromBytes_word (v : UInt16) : fromBytes [(v >>> 8).toUInt8, v.toUInt8] = v.toNat := by
  have hv := v.toNat_lt
  simp [fromBytes, Nat.shiftRight_eq_div_pow]
  omega

theorem bytes_of_word (hi lo : UInt8) :
    (((hi.toUInt16 <<< 8) ||| lo.toUInt16) >>> 8).toUInt8 = hi ∧
      ((hi.toUInt16 <<< 8) ||| lo.toUInt16).toUInt8 = lo := by
  have hhi := hi.toNat_lt
  have hlo := lo.toNat_lt
  constructor
  · apply UInt8.toNat_inj.mp
    rw [UInt16.toNat_toUInt8, UInt16.toNat_shiftRight, word_toNat]
    simp [Nat.shiftRight_eq_div_pow]
    omega
  · apply UInt8.toNat_inj.mp
    rw [UInt16.toNat_toUInt8, word_toNat]
    omega

/-! ## The CRC -/

theorem crcBit_toNat (crc : UInt16) :
    (if crc.toNat &&& 1 ≠ 0 then (crc.toNat >>> 1) ^^^ 0xA001 else crc.toNat >>> 1) =
      (crcBit crc).toNat := by
  have hbit : crc.toNat &&& 1 ≠ 0 ↔ crc &&& 1 ≠ 0 := by
    rw [ne_eq, ne_eq, ← UInt16.toNat_inj]
    simp
  rw [crcBit]
  by_cases h : crc &&& 1 ≠ 0
  · rw [if_pos h, if_pos (hbit.mpr h)]
    simp
  · rw [if_neg h, if_neg fun h' => h (hbit.mp h')]
    simp

/-- The third program that computes this CRC does too. -/
theorem crc16_toNat (data : Bytes) : crc16 data = (modbusCrc16 data).toNat := by
  rw [crc16, ← crc16_eq, Busscan.crc16]
  have hstart : (0xFFFF : Nat) = (0xFFFF : UInt16).toNat := rfl
  rw [hstart]
  refine List.foldl_hom UInt16.toNat fun crc b => ?_
  have hin : crc.toNat ^^^ b.toNat = (crc ^^^ b.toUInt16).toNat := by simp
  rw [hin]
  exact List.foldl_hom UInt16.toNat fun crc _ => crcBit_toNat crc

/-- A frame with its CRC behind it. -/
def closed (body : Bytes) : Bytes :=
  body ++ [(modbusCrc16 body).toUInt8, (modbusCrc16 body >>> 8).toUInt8]

theorem withCrc_eq (body : Bytes) : withCrc body = some (closed body) := by
  rw [withCrc, crc16_toNat, closed]
  generalize modbusCrc16 body = crc
  have hcrc := crc.toNat_lt
  have hlow : crc.toNat &&& 0xFF = crc.toNat % 256 := Nat.and_two_pow_sub_one_eq_mod crc.toNat 8
  have hhigh : crc.toNat >>> 8 = crc.toNat / 256 := Nat.shiftRight_eq_div_pow crc.toNat 8
  have htail : bytes [crc.toNat % 256, crc.toNat / 256] =
      some [crc.toUInt8, (crc >>> 8).toUInt8] := by
    have hlo : UInt8.ofNat (crc.toNat % 256) = crc.toUInt8 := by
      apply UInt8.toNat_inj.mp
      simp
    have hhi : UInt8.ofNat (crc.toNat / 256) = (crc >>> 8).toUInt8 := by
      apply UInt8.toNat_inj.mp
      simp [Nat.shiftRight_eq_div_pow]
    rw [← hlo, ← hhi]
    simp only [bytes, List.mapM_cons, List.mapM_nil, if_pos (show crc.toNat % 256 < 256 by omega),
      if_pos (show crc.toNat / 256 < 256 by omega)]
    rfl
  rw [hlow, hhigh, htail]
  rfl

theorem crcMatches_closed (body : Bytes) : crcMatches (closed body) = some true := by
  rw [closed, crcMatches_append]
  exact congrArg some ((crcOk_append _ _).mpr (passes_own_crc body))

/-! ## The frame of a request -/

/-- The frame that `buildRead` spells. -/
def readFrame (addr : UInt8) (start count : UInt16) : Bytes :=
  closed [addr, 0x03, (start >>> 8).toUInt8, start.toUInt8, (count >>> 8).toUInt8, count.toUInt8]

theorem buildRead_eq : buildRead addr start count = bytesToHex (readFrame addr start count) := rfl

theorem fromHex_bytesToHex (b : Bytes) : fromHex (bytesToHex b) = some b := by
  induction b with
  | nil => rfl
  | cons x rest ih =>
      obtain ⟨hhigh, hlow, hbyte⟩ := nibbles_of_byte x
      have hspace : isSpace (hexDigit (x >>> 4)) = false :=
        forall_byte (p := fun x => isSpace (hexDigit (x >>> 4)) = false) (by decide +kernel) x
      rw [bytesToHex, fromHex, if_neg (by rw [hspace]; exact Bool.false_ne_true),
        hexNibble_hexDigit hhigh, hexNibble_hexDigit hlow, ih]
      simp [hbyte]

/-! ## The answer to a request -/

/-- The reply with these values. -/
def reply (addr : UInt8) (regs : List Nat) : Bytes :=
  closed ([addr, 0x03, UInt8.ofNat (regs.length * 2)] ++ regs.flatMap pair)

theorem answerFrame_silent (h : devices.lookup addr.toNat = none) :
    answerFrame devices (readFrame addr start count) = some none := by
  have haddr : (readFrame addr start count)[0]? = some addr := rfl
  have hfn : (readFrame addr start count)[1]? = some 0x03 := rfl
  rw [answerFrame, haddr, hfn]
  simp [h]

theorem mapM_toBytes {regs : List Nat} (h : ∀ r ∈ regs, r < 65536) :
    regs.mapM toBytes = some (regs.map pair) := by
  induction regs with
  | nil => rfl
  | cons r rest ih =>
      rw [List.mapM_cons, toBytes_eq (h r (by simp)), ih fun x hx => h x (by simp [hx])]
      rfl

theorem answerFrame_read (start count : UInt16) {regs : List Nat}
    (hdev : devices.lookup addr.toNat = some dev)
    (hregs : (List.range' start.toNat count.toNat).mapM (register dev addr) = some regs)
    (hsmall : ∀ r ∈ regs, r < 65536) (hlen : regs.length = count.toNat)
    (hcount : count.toNat * 2 < 256) :
    answerFrame devices (readFrame addr start count) = some (some (reply addr regs)) := by
  have haddr : (readFrame addr start count)[0]? = some addr := rfl
  have hfn : (readFrame addr start count)[1]? = some 0x03 := rfl
  have hstart : ((readFrame addr start count).drop 2).take 2 =
      [(start >>> 8).toUInt8, start.toUInt8] := rfl
  have hcnt : ((readFrame addr start count).drop 4).take 2 =
      [(count >>> 8).toUInt8, count.toUInt8] := rfl
  have hhead : bytes [addr.toNat, 0x03, count.toNat * 2] =
      some [addr, 0x03, UInt8.ofNat (count.toNat * 2)] := by
    simp only [bytes, List.mapM_cons, List.mapM_nil, if_pos addr.toNat_lt,
      if_pos (show 0x03 < 256 by decide), if_pos hcount, UInt8.ofNat_toNat]
    rfl
  rw [answerFrame, haddr, hfn]
  simp only [Option.bind_eq_bind, Option.bind_some, hdev, ne_eq, not_true_eq_false, if_false,
    hstart, hcnt, fromBytes_word, hregs, hhead, mapM_toBytes hsmall, withCrc_eq, Option.pure_def]
  rw [reply, hlen, List.flatMap_def]

/-! ## What the tool makes of it -/

/-- An entry that the simulator can serve: it has a serial number for all its
registers, and values that fit into one. -/
structure Device.Fits (dev : Device) : Prop where
  sn : 10 ≤ dev.sn.length
  type : dev.type < 65536
  proto : dev.proto < 65536
  soc : dev.soc < 65536

instance : DecidablePred Device.Fits := fun dev =>
  decidable_of_iff (10 ≤ dev.sn.length ∧ dev.type < 65536 ∧ dev.proto < 65536 ∧ dev.soc < 65536)
    ⟨fun ⟨hsn, htype, hproto, hsoc⟩ => ⟨hsn, htype, hproto, hsoc⟩,
      fun h => ⟨h.sn, h.type, h.proto, h.soc⟩⟩

/-- A serial number that the tool prints as it is: nothing to cut off, no
padding at either end, and all of it printable. -/
structure Device.Plain (dev : Device) : Prop where
  ten : dev.sn.length = 10
  printable : ∀ b ∈ dev.sn, 0x20 ≤ b ∧ b < 0x7F
  head : dev.sn.head? ≠ some 32
  last : dev.sn.getLast? ≠ some 32

instance : DecidablePred Device.Plain := fun dev =>
  have : Decidable (∀ b ∈ dev.sn, 0x20 ≤ b ∧ b < 0x7F) := List.decidableBAll _ _
  decidable_of_iff (dev.sn.length = 10 ∧ (∀ b ∈ dev.sn, 0x20 ≤ b ∧ b < 0x7F) ∧
      dev.sn.head? ≠ some 32 ∧ dev.sn.getLast? ≠ some 32)
    ⟨fun ⟨hten, hprintable, hhead, hlast⟩ => ⟨hten, hprintable, hhead, hlast⟩,
      fun h => ⟨h.ten, h.printable, h.head, h.last⟩⟩

/-- Nothing is trimmed at an end that is not padding. -/
theorem dropWhile_padding {l : Bytes} (hprintable : ∀ b ∈ l, 0x20 ≤ b ∧ b < 0x7F)
    (hhead : l.head? ≠ some 32) : l.dropWhile (fun c => c == 0 || c == 32) = l := by
  cases l with
  | nil => rfl
  | cons b rest =>
      have hzero : b ≠ 0 := by
        rintro rfl
        exact absurd (hprintable 0 (by simp)).1 (by decide)
      have hspace : b ≠ 32 := fun h => hhead (congrArg some h)
      exact List.dropWhile_cons_of_neg (by simp [hzero, hspace])

theorem Device.Plain.sanitizeSN_eq (h : dev.Plain) : sanitizeSN (dev.sn.take 10) = dev.sn := by
  have hrev : ∀ b ∈ dev.sn.reverse, 0x20 ≤ b ∧ b < 0x7F := fun b hb =>
    h.printable b (List.mem_reverse.mp hb)
  have hlast : dev.sn.reverse.head? ≠ some 32 := by
    rw [List.head?_reverse]
    exact h.last
  rw [sanitizeSN, List.take_of_length_le (Nat.le_of_eq h.ten),
    dropWhile_padding h.printable h.head, dropWhile_padding hrev hlast, List.reverse_reverse]
  have hself : ∀ b ∈ dev.sn, (if 0x20 ≤ b ∧ b < 0x7F then [b] else
      text "\\x" ++ bytesToHex [b]) = [b] := fun b hb => if_pos (h.printable b hb)
  rw [List.flatMap_congr hself, List.flatMap_singleton']

/-- What a scan says of a device: of its serial number the bytes that its
registers hold, as the tool prints them. -/
def identOf (dev : Device) (addr : UInt8) : Ident where
  present := true
  hasIdent := true
  deviceType := UInt16.ofNat dev.type
  modbusAddr := addr.toUInt16
  proto := UInt16.ofNat dev.proto
  sn := sanitizeSN (dev.sn.take 10)

theorem ten_bytes {l : Bytes} (h : 10 ≤ l.length) :
    ∃ a b c d e f g i j k rest, l = a :: b :: c :: d :: e :: f :: g :: i :: j :: k :: rest := by
  rcases l with _ | ⟨a, _ | ⟨b, _ | ⟨c, _ | ⟨d, _ | ⟨e, _ | ⟨f, _ | ⟨g, _ | ⟨i, _ | ⟨j, _ |
    ⟨k, rest⟩⟩⟩⟩⟩⟩⟩⟩⟩⟩
  all_goals first
    | exact ⟨a, b, c, d, e, f, g, i, j, k, rest, rfl⟩
    | simp at h

/-- The tool reads the registers of an answer with eight of them. -/
theorem parseIdent_closed {t a p : Nat} {b c d e f g i j k l : UInt8} (ht : t < 65536)
    (ha : a < 65536) (hp : p < 65536) :
    parseIdent (closed ([addr, 0x03, 16] ++ pair t ++ pair a ++ pair p ++
      [b, c, d, e, f, g, i, j, k, l])) addr = some (.ok
        { present := true, hasIdent := true, deviceType := UInt16.ofNat t
          modbusAddr := UInt16.ofNat a, proto := UInt16.ofNat p
          sn := sanitizeSN [b, c, d, e, f, g, i, j, k, l] }) := by
  generalize hframe : closed ([addr, 0x03, 16] ++ pair t ++ pair a ++ pair p ++
    [b, c, d, e, f, g, i, j, k, l]) = frame
  have hmatches : crcMatches frame = some true := by rw [← hframe, crcMatches_closed]
  have hlen : frame.length = 21 := by rw [← hframe]; rfl
  have h0 : frame[0]? = some addr := by rw [← hframe]; rfl
  have h1 : frame[1]? = some 0x03 := by rw [← hframe]; rfl
  have h2 : frame[2]? = some 16 := by rw [← hframe]; rfl
  have hregs : (List.range 8).mapM (registerAt frame) = some [UInt16.ofNat t, UInt16.ofNat a,
      UInt16.ofNat p, (b.toUInt16 <<< 8) ||| c.toUInt16, (d.toUInt16 <<< 8) ||| e.toUInt16,
      (f.toUInt16 <<< 8) ||| g.toUInt16, (i.toUInt16 <<< 8) ||| j.toUInt16,
      (k.toUInt16 <<< 8) ||| l.toUInt16] := by
    rw [← word_pair ht, ← word_pair ha, ← word_pair hp, ← hframe]
    rfl
  have hread : ∀ id : Ident, readIdent id frame = some { id with
      hasIdent := true, deviceType := UInt16.ofNat t, modbusAddr := UInt16.ofNat a
      proto := UInt16.ofNat p, sn := sanitizeSN [b, c, d, e, f, g, i, j, k, l] } := by
    intro id
    rw [readIdent, hregs]
    simp only [Option.bind_eq_bind, Option.bind_some, List.getElem?_cons_zero,
      List.getElem?_cons_succ, List.drop_succ_cons, List.drop_zero, List.flatMap_cons,
      List.flatMap_nil, bytes_of_word, List.cons_append, List.nil_append, Option.pure_def]
  have hfn : (0x03 : UInt8) &&& 0x80 = 0 := by decide
  rw [parseIdent, hmatches, h0, h1, h2]
  simp [hlen, hread, hfn]

/-- Registers 0 to 7, as they are written and as they are read. -/
theorem ident_registers (addr : UInt8) (hdev : dev.Fits) :
    ∃ regs, (List.range' 0 8).mapM (register dev addr) = some regs ∧ regs.length = 8 ∧
      (∀ r ∈ regs, r < 65536) ∧
      parseIdent (reply addr regs) addr = some (.ok (identOf dev addr)) := by
  obtain ⟨a, b, c, d, e, f, g, i, j, k, rest, hsn⟩ := ten_bytes hdev.sn
  have hword : ∀ hi lo : UInt8, (hi.toNat <<< 8) ||| lo.toNat < 65536 := by
    intro hi lo
    have hhi := hi.toNat_lt
    have hlo := lo.toNat_lt
    rw [shift_or]
    omega
  have haddr : addr.toNat < 65536 := Nat.lt_trans addr.toNat_lt (by decide)
  refine ⟨[dev.type, addr.toNat, dev.proto, (a.toNat <<< 8) ||| b.toNat,
    (c.toNat <<< 8) ||| d.toNat, (e.toNat <<< 8) ||| f.toNat, (g.toNat <<< 8) ||| i.toNat,
    (j.toNat <<< 8) ||| k.toNat], ?_, rfl, ?_, ?_⟩
  · simp [register, hsn, List.range'_succ]
  · simp only [List.forall_mem_cons, List.not_mem_nil, hdev.type, hdev.proto, hword, haddr,
      true_and]
    simp
  · have hreply : reply addr [dev.type, addr.toNat, dev.proto, (a.toNat <<< 8) ||| b.toNat,
        (c.toNat <<< 8) ||| d.toNat, (e.toNat <<< 8) ||| f.toNat, (g.toNat <<< 8) ||| i.toNat,
        (j.toNat <<< 8) ||| k.toNat] = closed ([addr, 0x03, 16] ++ pair dev.type ++
          pair addr.toNat ++ pair dev.proto ++ [a, b, c, d, e, f, g, i, j, k]) := by
      rw [reply]
      simp [pair_word]
    have hself : UInt16.ofNat addr.toNat = addr.toUInt16 := by
      apply UInt16.toNat_inj.mp
      simp
    rw [hreply, parseIdent_closed hdev.type haddr hdev.proto, identOf, hsn, hself]
    rfl

/-- The state of charge. -/
theorem parseSOC_reply (h : r < 65536) : parseSOC (reply addr [r]) = some (.ok r) := by
  generalize hframe : reply addr [r] = frame
  have hmatches : crcMatches frame = some true := by rw [← hframe, reply, crcMatches_closed]
  have hlen : frame.length = 7 := by rw [← hframe]; rfl
  have h1 : frame[1]? = some 0x03 := by rw [← hframe]; rfl
  have h2 : frame[2]? = some 2 := by rw [← hframe]; rfl
  have h3 : frame[3]? = some (UInt8.ofNat (r / 256)) := by rw [← hframe]; rfl
  have h4 : frame[4]? = some (UInt8.ofNat (r % 256)) := by rw [← hframe]; rfl
  have hfn : (0x03 : UInt8) &&& 0x80 = 0 := by decide
  rw [parseSOC, hmatches, h1, h2, h3, h4]
  simp only [hlen, hfn, Option.bind_eq_bind, Option.bind_some, Option.pure_def, word_pair h,
    UInt16.toNat_ofNat_of_lt' h]
  simp

/-! ## There and back -/

/-- What one side writes of this request and its answer, the other reads. -/
structure Understood (G : GoJson) (J : PyJson) (devices : Devices) (doc : Json) : Prop where
  loads : J.loads (G.marshal doc) = some doc
  unmarshal : ∀ answer, answerHeader devices doc = some answer →
    G.unmarshal (J.dumps answer) = some answer

variable {G : GoJson} {J : PyJson} {k : UInt64} {unix : Int64} {hex : Bytes}

/-- The document of a request, with what stands for its line. -/
def headerDoc (k : UInt64) (line : List (String × Json)) : List (String × Json) :=
  [("OrderId", .str (orderId k)), ("SendLastLog", .int 0), ("Lines", .arr [.obj line])]

def lineStart (unix : Int64) : List (String × Json) :=
  [("LineNo", .int 0), ("Tag", .str (text "busscan")), ("Timestamp", .int unix.toInt)]

theorem request_doc (h : hex ≠ []) :
    (request k unix hex).doc = .obj (headerDoc k (lineStart unix ++ [("Modbus", .str hex)])) := by
  have hne : (!hex.isEmpty) = true := by simpa using h
  have hline : ({ tag := text "busscan", timestamp := unix, modbus := hex } : Line).doc =
      .obj (lineStart unix ++ [("Modbus", .str hex)]) := by
    rw [Line.doc]
    simp only [hne]
    rfl
  rw [request, Header.doc, List.map_singleton, hline]
  rfl

/-- The header the tool gets back, in the order of its keys. -/
theorem answerHeader_eq {line : List (String × Json)}
    (h : answerLines devices [.obj (lineStart unix ++ [("Modbus", .str hex)])] =
      some [.obj line]) :
    answerHeader devices (.obj (headerDoc k (lineStart unix ++ [("Modbus", .str hex)]))) =
      some (.obj (headerDoc k line ++ [("ClientName", .str (text "GbbDongle")),
        ("ClientVersion", .str (text "fake"))])) := by
  have hlines : (headerDoc k (lineStart unix ++ [("Modbus", .str hex)])).lookup "Lines" =
      some (.arr [.obj (lineStart unix ++ [("Modbus", .str hex)])]) := rfl
  rw [answerHeader, answerLinesOf, hlines]
  dsimp only
  rw [h]
  rfl

theorem answerLines_answered (unix : Int64) {frame response : Bytes}
    (hhex : fromHex hex = some frame)
    (h : answerFrame devices frame = some (some response)) :
    answerLines devices [.obj (lineStart unix ++ [("Modbus", .str hex)])] =
      some [.obj (lineStart unix ++ [("Modbus", .str (bytesToHex response))])] := by
  have hmodbus : (lineStart unix ++ [("Modbus", Json.str hex)]).lookup "Modbus" =
      some (Json.str hex) := rfl
  rw [answerLines, hmodbus]
  dsimp only
  rw [hhex]
  simp only [Option.bind_eq_bind, Option.bind_some, h, answerLines]
  rfl

theorem answerLines_silent (unix : Int64) {frame : Bytes} (hhex : fromHex hex = some frame)
    (h : answerFrame devices frame = some none) :
    answerLines devices [.obj (lineStart unix ++ [("Modbus", .str hex)])] =
      some [.obj (lineStart unix ++ [("Error", .str responseTimeout)])] := by
  have hmodbus : (lineStart unix ++ [("Modbus", Json.str hex)]).lookup "Modbus" =
      some (Json.str hex) := rfl
  rw [answerLines, hmodbus]
  dsimp only
  rw [hhex]
  simp only [Option.bind_eq_bind, Option.bind_some, h]
  rfl

/-- What the tool has of a header with this line. -/
theorem ofDoc_answer (k : UInt64) (unix : Int64) (last : String × Json) {l : Line}
    (h : intoField last.1 last.2 { tag := text "busscan", timestamp := unix } = some l) :
    Header.ofDoc (.obj (headerDoc k (lineStart unix ++ [last]) ++
      [("ClientName", .str (text "GbbDongle")), ("ClientVersion", .str (text "fake"))])) =
      some { orderId := orderId k, lines := [l] } := by
  have hzero : ∀ old, intoInt (.int 0) old = some 0 := fun _ => rfl
  have hline : intoLine (.obj (lineStart unix ++ [last])) {} = some l := by
    rw [intoLine, lineStart]
    simp only [List.cons_append, List.nil_append, List.foldlM_cons, List.foldlM_nil,
      intoField_lineNo, intoField_tag, intoField_timestamp, intoInt_toInt64, hzero, intoString,
      Option.map_some, Option.bind_eq_bind, Option.bind_some, Option.pure_def]
    rw [h]
    rfl
  have hlines : ∀ head : Header, head.lines = [] → head.spare = [] →
      intoLines (.arr [.obj (lineStart unix ++ [last])]) head =
        some { head with lines := [l] } := by
    intro head hnone hspare
    obtain ⟨orderId, sendLastLog, lines, spare⟩ := head
    subst hnone hspare
    rw [intoLines]
    simp only [List.append_nil, intoElems, List.headD_nil, hline, Option.bind_eq_bind,
      Option.bind_some, Option.map_some, List.tail_nil, Option.pure_def]
    simp
  rw [Header.ofDoc, headerDoc]
  simp only [List.cons_append, List.nil_append, List.foldlM_cons, List.foldlM_nil,
    intoHeader_orderId, intoHeader_sendLastLog, intoHeader_lines, hzero, intoString,
    Option.map_some, Option.bind_eq_bind, Option.bind_some, Option.pure_def, hlines,
    intoHeader_other (show "ClientName" ∈ otherMembers by decide),
    intoHeader_other (show "ClientVersion" ∈ otherMembers by decide)]

theorem buildRead_ne_nil : buildRead addr start count ≠ [] := by
  rw [buildRead_eq, readFrame, closed]
  simp [bytesToHex]

/-- The header the tool gets back, for what it has sent. -/
theorem answerHeader_request {line : List (String × Json)}
    (hline : answerLines devices
      [.obj (lineStart unix ++ [("Modbus", .str (buildRead addr start count))])] =
        some [.obj line]) :
    answerHeader devices (request k unix (buildRead addr start count)).doc =
      some (.obj (headerDoc k line ++ [("ClientName", .str (text "GbbDongle")),
        ("ClientVersion", .str (text "fake"))])) := by
  rw [request_doc buildRead_ne_nil]
  exact answerHeader_eq hline

/-- The simulator has a response, and the tool reads in it what its header says. -/
theorem response_read {doc answer : Json} {h : Header} (hj : Understood G J devices doc)
    (hanswer : answerHeader devices doc = some answer) (hdoc : Header.ofDoc answer = some h) :
    handleRequest J devices (G.marshal doc) = some (J.dumps answer) ∧
      readResponse G (orderId k) (J.dumps answer) = readHeader (orderId k) h := by
  have hread := hj.unmarshal _ hanswer
  constructor
  · simp only [handleRequest, hj.loads, hanswer, Option.bind_eq_bind, Option.bind_some,
      Option.pure_def]
  · simp only [readResponse, hread, Option.bind_some, hdoc]

theorem exchange_answered {response : Bytes}
    (hj : Understood G J devices (request k unix (buildRead addr start count)).doc)
    (h : answerFrame devices (readFrame addr start count) = some (some response)) :
    exchange G J devices k unix (buildRead addr start count) = .frame response := by
  have hline := answerLines_answered unix (fromHex_bytesToHex (readFrame addr start count)) h
  have hdoc := ofDoc_answer k unix ("Modbus", .str (bytesToHex response))
    (l := { tag := text "busscan", timestamp := unix, modbus := bytesToHex response })
    (by rw [intoField_modbus]; rfl)
  obtain ⟨hhandled, hread⟩ := response_read (k := k) hj (answerHeader_request hline) hdoc
  have hanswer : readHeader (orderId k)
      { orderId := orderId k
        lines := [{ tag := text "busscan", timestamp := unix, modbus := bytesToHex response }] } =
        .answer response := by
    simp [readHeader, hexDecode_bytesToHex]
  simp only [exchange, hhandled, hread, hanswer]

theorem exchange_silent
    (hj : Understood G J devices (request k unix (buildRead addr start count)).doc)
    (h : answerFrame devices (readFrame addr start count) = some none) :
    exchange G J devices k unix (buildRead addr start count) = .dongleError responseTimeout := by
  have hline := answerLines_silent unix (fromHex_bytesToHex (readFrame addr start count)) h
  have hdoc := ofDoc_answer k unix ("Error", .str responseTimeout)
    (l := { tag := text "busscan", timestamp := unix, error := responseTimeout })
    (by rw [intoField_error]; rfl)
  obtain ⟨hhandled, hread⟩ := response_read (k := k) hj (answerHeader_request hline) hdoc
  have hsome : responseTimeout ≠ [] := by decide +kernel
  have hreported : readHeader (orderId k)
      { orderId := orderId k
        lines := [{ tag := text "busscan", timestamp := unix, error := responseTimeout }] } =
        .reported responseTimeout := by
    simp [readHeader, hsome]
  simp only [exchange, hhandled, hread, hreported]

/-! ## The scan -/

theorem probe_read {ask : Nat → Exchange} {frame : Bytes} {id : Ident} (h : ask 1 = .frame frame)
    (hid : parseIdent frame addr = some (.ok id)) : probe ask addr = some ([ask 1], .ok id) := by
  have hturn : probeTurn addr 1 [] (ask 1) = some (.done (.ok id)) := by
    rw [h, probeTurn]
    simp only [hid, Option.bind_eq_bind, Option.bind_some, Option.pure_def]
  rw [probe, probeLoop]
  simp only [hturn, Option.bind_eq_bind, Option.bind_some, Option.pure_def]

theorem probe_timeouts (addr : UInt8) {ask : Nat → Exchange}
    (h₁ : ask 1 = .dongleError responseTimeout) (h₂ : ask 2 = .dongleError responseTimeout) :
    probe ask addr = some ([ask 1, ask 2], .ok { present := false }) := by
  have hfirst : probeTurn addr 1 [] (ask 1) = some (.again []) := by
    rw [h₁, probeTurn, if_pos rfl, if_pos rfl]
  have hsecond : probeTurn addr 2 [] (ask 2) = some (.done (.ok { present := false })) := by
    rw [h₂, probeTurn, if_pos rfl, if_neg (by decide)]
  simp only [probe, probeLoop, hfirst, hsecond, Option.bind_eq_bind, Option.bind_some,
    Option.pure_def]

/-- The requests of a scan to an address. -/
def requestsTo (stamps : Stamps) (addr : UInt8) : List Json :=
  [(request (stamps addr 1).1 (stamps addr 1).2 (buildRead addr 0 8)).doc,
    (request (stamps addr 2).1 (stamps addr 2).2 (buildRead addr 0 8)).doc,
    (request (stamps addr 3).1 (stamps addr 3).2 (buildRead addr 588 1)).doc]

/-- The addresses a scan gets to: all of them, or none after the first that is
silent. -/
def reached (devices : Devices) (full : Bool) : List UInt8 → List UInt8
  | [] => []
  | addr :: rest =>
      if full || (devices.lookup addr.toNat).isSome then addr :: reached devices full rest
      else [addr]

/-- The row of a device in the results. -/
def rowOf (devices : Devices) (readSOC : Bool) (addr : UInt8) : Option Result :=
  (devices.lookup addr.toNat).map fun dev =>
    ⟨addr, identOf dev addr, if readSOC then dev.soc else -1⟩

variable {stamps : Stamps} {full readSOC : Bool}

theorem simulated_silent (hjson : ∀ doc ∈ requestsTo stamps addr, Understood G J devices doc)
    (h : devices.lookup addr.toNat = none) :
    probe ((simulated G J devices stamps).probe addr) addr =
      some ([.dongleError responseTimeout, .dongleError responseTimeout],
        .ok { present := false }) := by
  rw [requestsTo, List.forall_mem_cons, List.forall_mem_cons] at hjson
  have h₁ := exchange_silent hjson.1 (answerFrame_silent h)
  have h₂ := exchange_silent hjson.2.1 (answerFrame_silent h)
  rw [probe_timeouts addr h₁ h₂]
  simp only [simulated, h₁, h₂]

theorem simulated_found (hjson : ∀ doc ∈ requestsTo stamps addr, Understood G J devices doc)
    (h : devices.lookup addr.toNat = some dev) (hdev : dev.Fits) :
    ∃ tried, probe ((simulated G J devices stamps).probe addr) addr =
        some (tried, .ok (identOf dev addr)) ∧
      probeSOC ((simulated G J devices stamps).soc addr) = some dev.soc := by
  rw [requestsTo, List.forall_mem_cons, List.forall_mem_cons, List.forall_mem_singleton] at hjson
  obtain ⟨regs, hregs, hlen, hsmall, hparse⟩ := ident_registers addr hdev
  have hident := exchange_answered hjson.1
    (answerFrame_read 0 8 h hregs hsmall hlen (by decide))
  have hsoc := exchange_answered hjson.2.2
    (answerFrame_read 588 1 h (show _ = some [dev.soc] from rfl)
      (by simpa using hdev.soc) rfl (by decide))
  refine ⟨_, probe_read hident hparse, ?_⟩
  have hframe : (simulated G J devices stamps).soc addr = .frame (reply addr [dev.soc]) := hsoc
  rw [hframe, probeSOC, parseSOC_reply hdev.soc]
  rfl

theorem reached_found {rest : List UInt8} (h : devices.lookup addr.toNat = some dev) :
    reached devices full (addr :: rest) = addr :: reached devices full rest := by
  rw [reached, h, Option.isSome_some, Bool.or_true, if_pos rfl]

theorem reached_silent {rest : List UInt8} (h : devices.lookup addr.toNat = none) :
    reached devices full (addr :: rest) =
      if full then addr :: reached devices full rest else [addr] := by
  rw [reached, h, Option.isSome_none, Bool.or_false]

/-- The loop reports the rows of the addresses it gets to. -/
theorem scanLoop_simulated (hdev : ∀ e ∈ devices, e.2.Fits) {rest : List UInt8}
    (hjson : ∀ addr ∈ reached devices full rest, ∀ doc ∈ requestsTo stamps addr,
      Understood G J devices doc) (results : List Result) :
    scanLoop (simulated G J devices stamps) full readSOC rest results =
      some (results ++ (reached devices full rest).filterMap (rowOf devices readSOC), none) := by
  induction rest generalizing results with
  | nil => rw [scanLoop, reached, List.filterMap_nil, List.append_nil]
  | cons addr rest ih =>
      rcases Option.eq_none_or_eq_some (devices.lookup addr.toNat) with h | ⟨dev, h⟩
      · have hrow : rowOf devices readSOC addr = none := by
          rw [rowOf, h]
          rfl
        rw [reached_silent h] at hjson ⊢
        have hask := hjson addr (by split <;> simp)
        simp only [scanLoop, simulated_silent hask h, Option.bind_eq_bind, Option.bind_some,
          if_true]
        -- a silent address has no row, and ends the scan unless it is a full one
        cases full with
        | true =>
            rw [if_pos rfl] at hjson
            rw [if_pos rfl, if_pos rfl, List.filterMap_cons_none hrow]
            exact ih (fun a ha => hjson a (List.mem_cons_of_mem _ ha)) results
        | false =>
            rw [if_neg Bool.false_ne_true, if_neg Bool.false_ne_true,
              List.filterMap_cons_none hrow, List.filterMap_nil, List.append_nil]
            rfl
      · have hmem : (addr.toNat, dev) ∈ devices := by
          obtain ⟨before, after, rfl, -⟩ := List.lookup_eq_some_iff.mp h
          simp
        have hrow : rowOf devices readSOC addr =
            some ⟨addr, identOf dev addr, if readSOC then dev.soc else -1⟩ := by
          rw [rowOf, h]
          rfl
        rw [reached_found h] at hjson ⊢
        obtain ⟨tried, hprobe, hsoc⟩ :=
          simulated_found (hjson addr (by simp)) h (hdev _ hmem)
        have hread : socOf (simulated G J devices stamps) readSOC addr (identOf dev addr) =
            some (if readSOC then (dev.soc : Int) else -1) := by
          rw [socOf]
          cases readSOC with
          | true => exact hsoc
          | false => rfl
        simp only [scanLoop, hprobe, hread, Option.bind_eq_bind, Option.bind_some]
        rw [List.filterMap_cons_some hrow, if_neg (by simp [identOf]),
          ih (fun a ha => hjson a (List.mem_cons_of_mem _ ha)), List.append_assoc]
        rfl

/-- A scan of the simulated bus reports the table: the devices at the addresses
it gets to, each with its own data, in ascending order and nothing else. -/
theorem scan_finds_devices (hdev : ∀ e ∈ devices, e.2.Fits)
    (hjson : ∀ addr ∈ reached devices full addresses, ∀ doc ∈ requestsTo stamps addr,
      Understood G J devices doc) :
    scan (simulated G J devices stamps) full readSOC =
        some ((reached devices full addresses).filterMap (rowOf devices readSOC), none) ∧
      ∀ row ∈ (reached devices full addresses).filterMap (rowOf devices readSOC),
        ∃ dev, devices.lookup row.addr.toNat = some dev ∧
          (dev.Plain → row.ident.sn = dev.sn) := by
  refine ⟨by rw [scan, scanLoop_simulated hdev hjson, List.nil_append], fun row hrow => ?_⟩
  obtain ⟨addr, -, hof⟩ := List.mem_filterMap.mp hrow
  obtain ⟨dev, hlookup, rfl⟩ := Option.map_eq_some_iff.mp hof
  exact ⟨dev, hlookup, fun h => h.sanitizeSN_eq⟩

/-- What a library knows it reads back. -/
theorem known_total {docs : List Json} (h : Legible docs) {doc : Json}
    (hany : docs.any doc.same = true) :
    (known docs).deserialize ((known docs).serialize doc) = some doc := by
  have hser : (known docs).serialize doc = doc.render := if_pos hany
  cases hread : (known docs).deserialize ((known docs).serialize doc) with
  | some j => rw [known_reads h hread]
  | none =>
      rw [hser] at hread
      obtain ⟨doc', hmem, hsame⟩ := List.any_eq_true.mp hany
      obtain rfl := Json.eq_of_same hsame
      have hno := List.find?_eq_none.mp hread doc hmem
      exact absurd (beq_self_eq_true doc.render) hno

/-- The first scan of a process whose clock stands still. -/
def firstScan : Stamps := fun addr i => (UInt64.ofNat (3 * addr.toNat + i), 0)

/-- What the tool and the simulator have to say in it. -/
def firstDocs : List Json :=
  let requests := ([1, 2, 3] : List UInt8).flatMap (requestsTo firstScan)
  requests ++ requests.filterMap (answerHeader DEVICES)

theorem scan_finds_devices_first :
    ∃ rows, scan (simulated ⟨(known firstDocs).serialize, (known firstDocs).deserialize⟩
        ⟨(known firstDocs).deserialize, (known firstDocs).serialize⟩ DEVICES firstScan) false true =
          some (rows, none) ∧
      rows.map (·.ident.sn) = [text "2301234501", text "2301234502"] ∧
      ∀ row ∈ rows, ∃ dev, DEVICES.lookup row.addr.toNat = some dev ∧ row.ident.sn = dev.sn := by
  have hlegible : Legible firstDocs := by decide +kernel
  have hall : ∀ addr ∈ reached DEVICES false addresses, ∀ doc ∈ requestsTo firstScan addr,
      firstDocs.any doc.same = true ∧
        ∀ answer ∈ answerHeader DEVICES doc, firstDocs.any answer.same = true := by
    decide +kernel
  have hjson : ∀ addr ∈ reached DEVICES false addresses, ∀ doc ∈ requestsTo firstScan addr,
      Understood ⟨(known firstDocs).serialize, (known firstDocs).deserialize⟩
        ⟨(known firstDocs).deserialize, (known firstDocs).serialize⟩ DEVICES doc := by
    intro addr haddr doc hdoc
    obtain ⟨hasked, hanswered⟩ := hall addr haddr doc hdoc
    exact ⟨known_total hlegible hasked, fun answer h => known_total hlegible (hanswered answer h)⟩
  have hfits : ∀ e ∈ DEVICES, e.2.Fits := by decide +kernel
  have hplain : ∀ e ∈ DEVICES, e.2.Plain := by decide +kernel
  refine ⟨_, (scan_finds_devices hfits hjson).1, by decide +kernel, fun row hrow => ?_⟩
  obtain ⟨dev, hlookup, hsn⟩ := (scan_finds_devices hfits hjson).2 row hrow
  obtain ⟨before, after, hsplit, -⟩ := List.lookup_eq_some_iff.mp hlookup
  have hmem : (row.addr.toNat, dev) ∈ DEVICES := by
    rw [hsplit]
    exact List.mem_append_right _ List.mem_cons_self
  exact ⟨dev, hlookup, hsn (hplain _ hmem)⟩

end Gbb.FakeDongle
