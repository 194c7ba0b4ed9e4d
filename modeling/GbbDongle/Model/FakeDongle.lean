import GbbDongle.Model.Exchange

/-!
# The simulated dongle (`tools/busscan/fake_dongle.py`)

What the bus scan is tried out with: a client that stands for the dongle and
for the inverters behind it. It is Python, whose integers have no width; where
it raises, a function returns nothing and no response is published. A request
is a dictionary, as `json.loads` makes one, with its keys in the order of the
text. The table of the inverters is a parameter of all of it; `DEVICES` is the
one in the source.
-/

namespace Gbb.FakeDongle

/-! ## The inverters -/

/-- An entry of `DEVICES`, its `sn` encoded. -/
structure Device where
  sn : Bytes
  type : Nat
  proto : Nat
  soc : Nat

/-- Entries by slave address. -/
abbrev Devices := List (Nat × Device)

def DEVICES : Devices :=
  [(1, { sn := text "2301234501", type := 0x0500, proto := 0x0102, soc := 85 }),
    (2, { sn := text "2301234502", type := 0x0500, proto := 0x0102, soc := 42 })]

/-- `crc16`. -/
def crc16 (data : Bytes) : Nat :=
  data.foldl (fun crc b =>
    (List.range 8).foldl (fun crc _ =>
      if crc &&& 1 ≠ 0 then (crc >>> 1) ^^^ 0xA001 else crc >>> 1) (crc ^^^ b.toNat)) 0xFFFF

/-- `bytes` of a list of integers. -/
def bytes (l : List Nat) : Option Bytes :=
  l.mapM fun n => if n < 256 then some (UInt8.ofNat n) else none

/-- `with_crc`. -/
def withCrc (frame : Bytes) : Option Bytes := do
  let c := crc16 frame
  let tail ← bytes [c &&& 0xFF, c >>> 8]
  return frame ++ tail

/-- `int.from_bytes(b, "big")`. -/
def fromBytes (b : Bytes) : Nat := b.foldl (fun n x => n * 256 + x.toNat) 0

/-- `r.to_bytes(2, "big")`. -/
def toBytes (r : Nat) : Option Bytes :=
  if r < 65536 then some [UInt8.ofNat (r / 256), UInt8.ofNat (r % 256)] else none

/-- The value of register `r`. -/
def register (dev : Device) (addr : UInt8) (r : Nat) : Option Nat :=
  if r = 0 then some dev.type
  else if r = 1 then some addr.toNat
  else if r = 2 then some dev.proto
  else if 3 ≤ r ∧ r ≤ 7 then do
    let i := (r - 3) * 2
    let hi ← dev.sn[i]?
    let lo ← dev.sn[i + 1]?
    return (hi.toNat <<< 8) ||| lo.toNat
  else if r = 588 then some dev.soc
  else some 0

/-- `answer_frame`: the response frame, or a bus timeout. -/
def answerFrame (devices : Devices) (frame : Bytes) : Option (Option Bytes) := do
  let addr ← frame[0]?
  let fn ← frame[1]?
  match devices.lookup addr.toNat with
  | none => return none
  | some dev =>
      -- illegal function
      if fn ≠ 0x03 then return some (← withCrc [addr, fn ||| 0x80, 0x01])
      let start := fromBytes ((frame.drop 2).take 2)
      let count := fromBytes ((frame.drop 4).take 2)
      let regs ← (List.range' start count).mapM (register dev addr)
      let head ← bytes [addr.toNat, 0x03, count * 2]
      let values ← regs.mapM toBytes
      return some (← withCrc (head ++ values.flatten))

/-! ## Requests -/

/-- The text layer of Python's `json`. -/
structure PyJson where
  loads : Bytes → Option Json
  dumps : Json → Bytes

/-- `d[key] = value`; a new key goes to the end. -/
def setItem (key : String) (value : Json) (d : List (String × Json)) : List (String × Json) :=
  if d.any (·.1 == key) then d.map fun e => if e.1 == key then (key, value) else e
  else d ++ [(key, value)]

/-- `d.pop(key, None)`. -/
def pop (key : String) (d : List (String × Json)) : List (String × Json) :=
  d.filter (·.1 != key)

/-- `bytes.fromhex`, which skips whitespace between bytes. -/
def fromHex : Bytes → Option Bytes
  | [] => some []
  | [c] => if isSpace c then some [] else none
  | hi :: lo :: rest =>
      if isSpace hi then fromHex (lo :: rest)
      else do
        let h ← hexNibble hi
        let l ← hexNibble lo
        let b ← fromHex rest
        return ((h <<< 4) ||| l) :: b

/-- The loop of `handle_request`, which a timeout ends. -/
def answerLines (devices : Devices) : List Json → Option (List Json)
  | [] => some []
  | .obj line :: rest => do
      match line.lookup "Modbus" with
      | some (.str hex) =>
          let frame ← fromHex hex
          match ← answerFrame devices frame with
          | none =>
              let line := setItem "Error" (.str (text "Response timeout")) line
              return .obj (pop "Modbus" line) :: rest
          | some response =>
              let rest ← answerLines devices rest
              return .obj (setItem "Modbus" (.str (bytesToHex response)) line) :: rest
      | _ => none
  | _ => none

/-- A header with its lines answered. Iterating over an empty string or
dictionary is no error. -/
def answerLinesOf (devices : Devices) (header : List (String × Json)) :
    Option (List (String × Json)) :=
  match header.lookup "Lines" with
  | some (.arr lines) =>
      (answerLines devices lines).map fun lines => setItem "Lines" (.arr lines) header
  | none | some (.str []) | some (.obj []) => some header
  | some _ => none

/-- What `handle_request` makes of the header. -/
def answerHeader (devices : Devices) : Json → Option Json
  | .obj header => do
      let header ← answerLinesOf devices header
      let header := setItem "ClientName" (.str (text "GbbDongle")) header
      return .obj (setItem "ClientVersion" (.str (text "fake")) header)
  | _ => none

/-- `handle_request`: the payload it publishes. -/
def handleRequest (J : PyJson) (devices : Devices) (payload : Bytes) : Option Bytes := do
  let header ← J.loads payload
  let header ← answerHeader devices header
  return J.dumps header

/-! ## The scan against the simulator -/

open Busscan

/-- What `exchange` returns when the broker brings its request here and the
response back; a failure where there is none that it can use. -/
def exchange (G : GoJson) (J : PyJson) (devices : Devices) (counter : UInt64) (unix : Int64)
    (frameHex : Bytes) : Exchange :=
  match handleRequest J devices (G.marshal (request counter unix frameHex).doc) with
  | none => .failed [] none
  | some raw =>
      match readResponse G (orderId counter) raw with
      | .answer frame => .frame frame
      | .reported msg => .dongleError msg
      | .ignored | .badHex => .failed [] none

/-- The order counter and the clock at an exchange. -/
abbrev Stamps := UInt8 → Nat → UInt64 × Int64

/-- The bus that a scan sees; the third exchange for an address is that for its
state of charge. -/
def simulated (G : GoJson) (J : PyJson) (devices : Devices) (stamps : Stamps) : Bus where
  probe addr attempt :=
    exchange G J devices (stamps addr attempt).1 (stamps addr attempt).2 (buildRead addr 0 8)
  soc addr := exchange G J devices (stamps addr 3).1 (stamps addr 3).2 (buildRead addr 588 1)

end Gbb.FakeDongle
