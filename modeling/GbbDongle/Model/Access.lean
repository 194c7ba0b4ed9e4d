import GbbDongle.Lib.Bounded
import GbbDongle.Model.Executor

/-!
# The executor, looking before it indexes

`operator[]` does not look. Here the executor is written down once more with
every access spelled out and checked, in the order the source makes them: the
reads and writes of `header_.lines`, `tx_frame_`, `rx_frame_` and the hex text,
those of the loops over them, and what the log statements read. Besides, each
number the code relies on is demanded where it is used: an expected length
within `MAX_FRAME_SIZE`, a `resize` that only shrinks, an `n - 2` that does not
wrap. What the call shows to the world is left to the other writing.
-/

namespace Gbb.Access

open Wrap Bounded

/-! ## The codec, the CRC and the log -/

/-- The loop of `hex_to_bytes` from index `i` on. -/
def hexLoop (hex : Bytes) (i : Nat) (out : Bytes) : Option (Bool × Bytes) :=
  if _ : i < hex.length then do
    let hi ← hex[i]?
    let lo ← hex[i + 1]?
    match hexNibble hi, hexNibble lo with
    | some hi, some lo => hexLoop hex (i + 2) (out ++ [(hi <<< 4) ||| lo])
    | _, _ => some (false, out)
  else some (true, out)
termination_by hex.length - i

def hexToBytes (hex : Bytes) (out : Bytes) : Option (Bool × Bytes) :=
  if hex.length % 2 ≠ 0 then some (false, out) else hexLoop hex 0 []

def modbusCrc16 (data : Bytes) (len : Nat) : Option UInt16 :=
  readLoop data (fun _ b crc => some (crcByte crc b)) len 0 0xFFFF

/-- `HEX`, in both functions that have one. -/
def hexTable : Bytes := text "0123456789ABCDEF"

def bytesToHex (data : Bytes) (len : Nat) : Option Bytes :=
  readLoop data
    (fun _ b out => do
      let hi ← hexTable[(b >>> 4).toNat]?
      let lo ← hexTable[(b &&& 0x0F).toNat]?
      some (out ++ [hi, lo]))
    len 0 []

/-- `*p++ = c`, where `out` is what stands in `buf` before `p`. -/
def put (c : UInt8) (out : Bytes) : Option Bytes := do
  require (out.length < maxFrameSize * 3 + 1)
  some (out ++ [c])

/-- One turn of the loop of `frame_to_log_hex`: a blank unless it is the first,
and two digits. -/
def putByte (i : Nat) (b : UInt8) (out : Bytes) : Option Bytes := do
  let out ← if i = 0 then some out else put 32 out
  let hi ← hexTable[(b >>> 4).toNat]?
  let out ← put hi out
  let lo ← hexTable[(b &&& 0x0F).toNat]?
  put lo out

def frameToLogHex (frame : Bytes) : Option Bytes := do
  let n := if frame.length < maxFrameSize then frame.length else maxFrameSize
  let out ← readLoop frame putByte n 0 []
  put 0 out

/-- A log statement that names the current line and shows a frame. -/
def logFrame (frame : Bytes) (e : ModbusExecutor) : Option Unit := do
  let _ ← e.header.lines[e.lineIndex]?
  let _ ← frameToLogHex frame
  some ()

/-! ## The end of a line -/

/-- The writes of `fail_line_` to the lines of the header. -/
def failLines (fault : LineFault) (i : Nat) (lines : List GbbLine) : Option (List GbbLine) := do
  let lines ← writeAt (fun l => { l with error := fault.message }) i lines
  writeLoop ModbusExecutor.clearModbus (lines.length - i) i lines

def failLine (t : Nat) (fault : LineFault) (e : ModbusExecutor) : Option ModbusExecutor := do
  let lines ← failLines fault e.lineIndex e.header.lines
  some (ModbusExecutor.finishAll
    { e with
      errorCount := e.errorCount + 1
      header := { e.header with lines := lines }
      gapUntil := millis t + e.nextGapMs })

/-- The `while` of `start_next_line_`. -/
def skipLines (lines : List GbbLine) (i : Nat) : Option Nat :=
  if _ : i < lines.length then do
    let line ← lines[i]?
    if !line.hasModbus || line.modbus.isEmpty then skipLines lines (i + 1) else some i
  else some i
termination_by lines.length - i

def startNextLine (t : Nat) (e : ModbusExecutor) : Option ModbusExecutor := do
  let i ← skipLines e.header.lines e.lineIndex
  if e.header.lines.length ≤ i then some (ModbusExecutor.finishAll { e with lineIndex := i })
  else do
    let line ← e.header.lines[i]?
    let tx ← hexToBytes line.modbus e.txFrame
    if tx.1 = false ∨ tx.2.length < 4 then
      failLine t .invalidHex { e with lineIndex := i, txFrame := tx.2 }
    else some { e with lineIndex := i, txFrame := tx.2, state := .gap }

def start (t : Nat) (header : GbbHeader) (e : ModbusExecutor) : Option ModbusExecutor :=
  startNextLine t { e with header := header, lineIndex := 0, state := .gap }

/-! ## Sending and receiving -/

def transmitCurrent (c : BusConfig) (tDone : Nat) (e : ModbusExecutor) :
    Option ModbusExecutor := do
  let function : UInt8 ← e.txFrame[1]?
  logFrame e.txFrame e
  some
    { e with
      nextGapMs := if 5 ≤ function ∧ function ≠ 23 then c.writeGapMs else c.readGapMs
      rxFrame := []
      txDoneAt := millis tDone
      lastRxByteAt := millis tDone
      state := .rxWait }

/-- The comparison in `finish_line_ok_`. -/
def crcOk (frame : Bytes) : Option Bool := do
  let n := frame.length
  require (2 ≤ n)
  let crc ← modbusCrc16 frame (n - 2)
  let lo ← frame[n - 2]?
  let hi ← frame[n - 1]?
  some (crc == (lo.toUInt16 ||| (hi.toUInt16 <<< 8)))

/-- The end of `finish_line_ok_`, from the reply that has passed. -/
def acceptReply (t tNext : Nat) (e : ModbusExecutor) : Option ModbusExecutor := do
  let modbus ← bytesToHex e.rxFrame e.rxFrame.length
  let lines ← writeAt (fun l => { l with modbus := modbus }) e.lineIndex e.header.lines
  logFrame e.rxFrame { e with header := { e.header with lines := lines } }
  startNextLine tNext
    { e with
      header := { e.header with lines := lines }
      gapUntil := millis t + e.nextGapMs
      lineIndex := e.lineIndex + 1 }

def finishLineOk (t tNext : Nat) (e : ModbusExecutor) : Option ModbusExecutor :=
  if e.rxFrame.length < 4 then do
    logFrame e.rxFrame e
    failLine t .tooShort e
  else do
    let ok ← crcOk e.rxFrame
    if ok = false then do
      logFrame e.rxFrame e
      failLine t .invalidCrc e
    else acceptReply t tNext e

/-- The length the header of a reply announces. -/
def announcedLength (frame : Bytes) : Option Nat := do
  let function : UInt8 ← frame[1]?
  if function &&& 0x80 ≠ 0 then some 5
  else if 0x01 ≤ function ∧ function ≤ 0x04 then do
    let count ← frame[2]?
    some (3 + count.toNat + 2)
  else if function = 0x05 ∨ function = 0x06 ∨ function = 0x0F ∨ function = 0x10 then some 8
  else some 0

/-- It is one that the frame buffer holds. -/
def expectedLength (frame : Bytes) : Option Nat := do
  let expected ← announcedLength frame
  require (expected ≤ maxFrameSize)
  some expected

/-- `resize(n)`, which would fill up with zeros what is too short. -/
def shrink (n : Nat) (frame : Bytes) : Option Bytes := do
  require (n ≤ frame.length)
  some (frame.take n)

def checkTimeout (c : BusConfig) (t tEnd : Nat) (e : ModbusExecutor) :
    Option ModbusExecutor :=
  if elapsed (millis t) e.txDoneAt c.responseTimeoutMs then do
    if e.rxFrame.isEmpty then do
      let _ ← e.header.lines[e.lineIndex]?
    else logFrame e.rxFrame e
    failLine tEnd .responseTimeout e
  else some e

/-- The bytes come in as in the other writing: `push_back` indexes nothing. -/
def handleRx (c : BusConfig) (rx : Bytes) (t tEnd tNext : Nat) (e₀ : ModbusExecutor) :
    Option ModbusExecutor :=
  let e := ModbusExecutor.receive t rx e₀
  if 3 ≤ e.rxFrame.length then do
    let expected ← expectedLength e.rxFrame
    if 0 < expected ∧ expected ≤ e.rxFrame.length then do
      let frame ← shrink expected e.rxFrame
      finishLineOk tEnd tNext { e with rxFrame := frame }
    else if expected = 0 ∧ elapsed (millis t) e.lastRxByteAt e.silenceGapMs = true then
      finishLineOk tEnd tNext e
    else checkTimeout c t tEnd e
  else checkTimeout c t tEnd e

def loop (c : BusConfig) (rx : Bytes) (t₁ t₂ t₃ : Nat) (e : ModbusExecutor) :
    Option ModbusExecutor :=
  match e.state with
  | .idle | .done => some e
  | .gap => if reached (millis t₁) e.gapUntil then transmitCurrent c t₂ e else some e
  | .transmit => some e
  | .rxWait => handleRx c rx t₁ t₂ t₃ e

end Gbb.Access

/-! ## The calls the component makes -/

namespace Gbb

inductive ExecCall
  | start (t : Nat) (header : GbbHeader)
  | serve (call : BusCall)
  | takeResult

def ModbusExecutor.perform (c : BusConfig) :
    ExecCall → ModbusExecutor → ModbusExecutor × List Event
  | .start t header, e => start t header e
  | .serve call, e => serve c call e
  | .takeResult, e => (e.takeResult.2, [])

def Access.perform (c : BusConfig) : ExecCall → ModbusExecutor → Option ModbusExecutor
  | .start t header, e => start t header e
  | .serve (.poll call), e => loop c call.rx call.t₁ call.t₂ call.t₃ e
  | .serve (.baudRate baud), e => some { e with baudRateHint := if baud = 0 then 9600 else baud }
  | .takeResult, e => some e.takeResult.2

end Gbb
