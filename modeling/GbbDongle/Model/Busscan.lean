import GbbDongle.Model.Bytes

/-!
# The bus scan (`tools/busscan/modbus.go`, `tools/busscan/scan.go`)

The tool stands where the cloud stands otherwise: it hands the dongle one
request at a time and reads the answer. What `exchange` returns for a frame is
what the dongle, the broker and the bus make of it; to the scan it is an input,
one for each attempt.

An index out of range stops a Go program, so a function that indexes a frame
returns nothing when it would. What is printed on the way is left out.
-/

namespace Gbb.Busscan

/-! ## Frames -/

/-- `crc16`. -/
def crc16 (data : Bytes) : UInt16 :=
  data.foldl (fun crc b =>
    (List.range 8).foldl (fun crc _ =>
      if crc &&& 1 ≠ 0 then (crc >>> 1) ^^^ 0xA001 else crc >>> 1) (crc ^^^ b.toUInt16)) 0xFFFF

/-- `buildRead`: read `count` holding registers from `start` on. -/
def buildRead (addr : UInt8) (start count : UInt16) : Bytes :=
  let f := [addr, 0x03, (start >>> 8).toUInt8, start.toUInt8, (count >>> 8).toUInt8, count.toUInt8]
  let c := crc16 f
  bytesToHex (f ++ [c.toUInt8, (c >>> 8).toUInt8])

/-- `ident`. -/
structure Ident where
  present : Bool := false
  /-- `Exception`, zero if none. -/
  exceptionCode : UInt8 := 0
  sn : Bytes := []
  deviceType : UInt16 := 0
  hasIdent : Bool := false
  modbusAddr : UInt16 := 0
  proto : UInt16 := 0
  note : Bytes := []

/-- `%d`. -/
def decimal (n : Nat) : Bytes := text (toString n)

/-- `0x%02X`. -/
def hexByte (b : UInt8) : Bytes := text "0x" ++ bytesToHex [b]

/-- The comparison that `parseIdent` and `parseSOC` share. -/
def crcMatches (frame : Bytes) : Option Bool :=
  if frame.length < 2 then none
  else do
    let body := frame.take (frame.length - 2)
    let lo ← frame[frame.length - 2]?
    let hi ← frame[frame.length - 1]?
    return crc16 body == (lo.toUInt16 ||| (hi.toUInt16 <<< 8))

def tooShort (frame : Bytes) : Bytes :=
  text "response too short (" ++ decimal frame.length ++ text " bytes)"

def badCrc (frame : Bytes) : Bytes := text "bad CRC in response " ++ bytesToHex frame

/-- `sanitizeSN`. -/
def sanitizeSN (b : Bytes) : Bytes :=
  let padding (c : UInt8) : Bool := c == 0 || c == 32
  let s := ((b.dropWhile padding).reverse.dropWhile padding).reverse
  s.flatMap fun c =>
    if 0x20 ≤ c ∧ c < 0x7F then [c] else text "\\x" ++ bytesToHex [c]

/-- The register at `3 + 2 * i`, high byte first. -/
def registerAt (frame : Bytes) (i : Nat) : Option UInt16 := do
  let hi ← frame[3 + 2 * i]?
  let lo ← frame[4 + 2 * i]?
  return (hi.toUInt16 <<< 8) ||| lo.toUInt16

/-- The end of `parseIdent`: registers 0 to 7. -/
def readIdent (id : Ident) (frame : Bytes) : Option Ident := do
  let regs ← (List.range 8).mapM (registerAt frame)
  let deviceType ← regs[0]?
  let modbusAddr ← regs[1]?
  let proto ← regs[2]?
  let sn := (regs.drop 3).flatMap fun (r : UInt16) => [(r >>> 8).toUInt8, r.toUInt8]
  return { id with
    hasIdent := true
    deviceType := deviceType
    modbusAddr := modbusAddr
    proto := proto
    sn := sanitizeSN sn }

/-- `parseIdent`. -/
def parseIdent (frame : Bytes) (probed : UInt8) : Option (Except Bytes Ident) := do
  if frame.length < 5 then return .error (tooShort frame)
  if (← crcMatches frame) = false then return .error (badCrc frame)
  let addr ← frame[0]?
  let function ← frame[1]?
  let third ← frame[2]?
  let note := if addr ≠ probed then text "reply from address " ++ decimal addr.toNat else []
  if function &&& 0x80 ≠ 0 then
    return .ok
      { present := true
        exceptionCode := third
        note := strTrimCopy
          (note ++ text " Modbus exception " ++ hexByte third ++ text " (device present)") }
  if function ≠ 0x03 then
    return .error
      (text "unexpected function " ++ hexByte function ++ text " in response " ++ bytesToHex frame)
  if third ≠ 16 ∨ frame.length < 3 + 16 + 2 then
    return .error
      (text "unexpected payload length " ++ decimal third.toNat ++ text " in response " ++
        bytesToHex frame)
  return .ok (← readIdent { present := true, note := note } frame)

/-- `parseSOC`; a device that answers with an exception has `-1`. -/
def parseSOC (frame : Bytes) : Option (Except Bytes Int) := do
  if frame.length < 5 then return .error (tooShort frame)
  if (← crcMatches frame) = false then return .error (badCrc frame)
  let function ← frame[1]?
  let third ← frame[2]?
  if function &&& 0x80 ≠ 0 then return .ok (-1)
  if function ≠ 0x03 ∨ third ≠ 2 ∨ frame.length < 7 then
    return .error (text "unexpected SOC response " ++ bytesToHex frame)
  let hi ← frame[3]?
  let lo ← frame[4]?
  return .ok ((hi.toUInt16 <<< 8) ||| lo.toUInt16).toNat

/-! ## The scan -/

/-- What `exchange` returns: a frame, an error the dongle reported for the
line, or any other error, together with what `ctx.Err()` is by then. -/
inductive Exchange
  | frame (frame : Bytes)
  | dongleError (msg : Bytes)
  | failed (err : Bytes) (ctxErr : Option Bytes)

/-- What `exchange` returns to each attempt to probe an address, and to the
read of its state of charge. -/
structure Bus where
  probe : UInt8 → Nat → Exchange
  soc : UInt8 → Exchange

/-- The text by which the dongle says that nothing answered. -/
def responseTimeout : Bytes := text "Response timeout"

/-- What a turn of the loop in `probe` comes to. -/
inductive Turn
  | again (lastNote : Bytes)
  | done (result : Except Bytes Ident)

/-- One turn of the loop in `probe`. -/
def probeTurn (addr : UInt8) (attempt : Nat) (lastNote : Bytes) (x : Exchange) : Option Turn :=
  match x with
  | .frame frame => do
      match ← parseIdent frame addr with
      | .error note => return .again note
      | .ok id => return .done (.ok id)
  | .dongleError msg =>
      if msg = responseTimeout then
        if attempt = 1 then some (.again lastNote) else some (.done (.ok { present := false }))
      else some (.again msg)
  | .failed err ctxErr =>
      match ctxErr with
      | some e => some (.done (.error e))
      | none => if attempt = 1 then some (.again lastNote) else some (.done (.error err))

/-- The loop of `probe` over the attempts that are left, with the exchanges it
made. -/
def probeLoop (ask : Nat → Exchange) (addr : UInt8) :
    List Nat → Bytes → Option (List Exchange × Except Bytes Ident)
  | [], lastNote =>
      some ([], .ok { present := true, note := text "garbled response: " ++ lastNote })
  | attempt :: rest, lastNote => do
      match ← probeTurn addr attempt lastNote (ask attempt) with
      | .done result => return ([ask attempt], result)
      | .again note =>
          let r ← probeLoop ask addr rest note
          return (ask attempt :: r.1, r.2)

/-- `probe`, which sends `buildRead addr 0 8`. -/
def probe (ask : Nat → Exchange) (addr : UInt8) : Option (List Exchange × Except Bytes Ident) :=
  probeLoop ask addr [1, 2] []

/-- `probeSOC`, which sends `buildRead addr 588 1`. -/
def probeSOC (x : Exchange) : Option Int :=
  match x with
  | .frame frame => do
      match ← parseSOC frame with
      | .error _ => return -1
      | .ok soc => return soc
  | _ => some (-1)

/-- `result`. -/
structure Result where
  addr : UInt8
  ident : Ident
  soc : Int

/-- The addresses of the loop in `scan`; a byte counts past the last of them. -/
def addresses : List UInt8 := (List.range 247).map fun i => UInt8.ofNat (i + 1)

/-- The state of charge of a device that is there, where it is asked for. -/
def socOf (bus : Bus) (readSOC : Bool) (addr : UInt8) (id : Ident) : Option Int :=
  if readSOC && id.hasIdent then probeSOC (bus.soc addr) else some (-1)

/-- The loop of `scan` over the addresses that are left: the results, and the
error that ended it. -/
def scanLoop (bus : Bus) (full readSOC : Bool) :
    List UInt8 → List Result → Option (List Result × Option Bytes)
  | [], results => some (results, none)
  | addr :: rest, results => do
      match (← probe (bus.probe addr) addr).2 with
      | .error err => return (results, some err)
      | .ok id =>
          if id.present = false then
            if full then scanLoop bus full readSOC rest results else return (results, none)
          else
            let soc ← socOf bus readSOC addr id
            scanLoop bus full readSOC rest (results ++ [⟨addr, id, soc⟩])

/-- `scan`. -/
def scan (bus : Bus) (full readSOC : Bool) : Option (List Result × Option Bytes) :=
  scanLoop bus full readSOC addresses []

end Gbb.Busscan
