import GbbDongle.Lib.Wrap
import GbbDongle.Model.Event

/-!
# The bus (`modbus_executor.h`, `modbus_executor.cpp`)

One header at a time, one frame at a time, and never a wait inside a call:
`loop` looks at the clock and at the bytes the UART holds and does what can be
done now.

Every `millis()` of the source is a separate reading, so a function that reads
the clock takes the real time of that reading. Of the UART a call sees the
bytes that `available()` and `read_byte()` would give it; `transmit_current_`
throws them away, `handle_rx_` appends them to the frame.
-/

namespace Gbb

open Wrap

/-- The timing the configuration fixes at boot. -/
structure BusConfig where
  responseTimeoutMs : UInt32 := 1000
  readGapMs : UInt32 := 100
  writeGapMs : UInt32 := 3000

/-- `MAX_FRAME_SIZE`. -/
def maxFrameSize : Nat := 300

inductive ExecState
  | idle
  | gap
  | transmit
  | rxWait
  | done
deriving DecidableEq

structure ModbusExecutor where
  baudRateHint : UInt32 := 9600
  state : ExecState := .idle
  header : GbbHeader := {}
  lineIndex : Nat := 0
  txFrame : Bytes := []
  rxFrame : Bytes := []
  gapUntil : UInt32 := 0
  txDoneAt : UInt32 := 0
  lastRxByteAt : UInt32 := 0
  nextGapMs : UInt32 := 0
  errorCount : UInt32 := 0

namespace ModbusExecutor

def busy (e : ModbusExecutor) : Bool := e.state != .idle && e.state != .done

def hasResult (e : ModbusExecutor) : Bool := e.state == .done

/-! ## The end of a line and of a batch -/

def finishAll (e : ModbusExecutor) : ModbusExecutor :=
  { e with txFrame := [], rxFrame := [], state := .done }

def clearModbus (l : GbbLine) : GbbLine := { l with hasModbus := false, modbus := [] }

/-- The error on line `n`, and no Modbus on it or any later line. -/
def failFrom (fault : LineFault) : Nat → List GbbLine → List GbbLine
  | _, [] => []
  | 0, l :: rest => { clearModbus l with error := fault.message } :: rest.map clearModbus
  | n + 1, l :: rest => l :: failFrom fault n rest

def failLine (t : Nat) (fault : LineFault) (e : ModbusExecutor) :
    ModbusExecutor × List Event :=
  (finishAll
    { e with
      errorCount := e.errorCount + 1
      header := { e.header with lines := failFrom fault e.lineIndex e.header.lines }
      gapUntil := millis t + e.nextGapMs },
    [.failed t fault, .gapUntil (t + e.nextGapMs.toNat)])

/-- The `while` of `start_next_line_`, over the lines from index `i` on. -/
def skipLines : List GbbLine → Nat → Nat
  | [], i => i
  | l :: rest, i => if l.carries then i else skipLines rest (i + 1)

def startNextLine (t : Nat) (e : ModbusExecutor) : ModbusExecutor × List Event :=
  let i := skipLines (e.header.lines.drop e.lineIndex) e.lineIndex
  match e.header.lines[i]? with
  | none => (finishAll { e with lineIndex := i }, [])
  | some line =>
      let tx := hexToBytes line.modbus e.txFrame
      if tx.1 = false ∨ tx.2.length < 4 then
        failLine t .invalidHex { e with lineIndex := i, txFrame := tx.2 }
      else
        ({ e with lineIndex := i, txFrame := tx.2, state := .gap }, [])

def start (t : Nat) (header : GbbHeader) (e : ModbusExecutor) :
    ModbusExecutor × List Event :=
  startNextLine t { e with header := header, lineIndex := 0, state := .gap }

def takeResult (e : ModbusExecutor) : GbbHeader × ModbusExecutor :=
  (e.header, { e with state := .idle, header := e.header.movedFrom })

/-! ## Sending -/

/-- The silence a command needs after it: long when its function code is a
write, which is 5 and up except for 23. -/
def gapAfter (c : BusConfig) (frame : Bytes) : UInt32 :=
  if 5 ≤ frame.getD 1 0 ∧ frame.getD 1 0 ≠ 23 then c.writeGapMs else c.readGapMs

def transmitCurrent (c : BusConfig) (t tDone : Nat) (e : ModbusExecutor) :
    ModbusExecutor × List Event :=
  ({ e with
      nextGapMs := gapAfter c e.txFrame
      rxFrame := []
      txDoneAt := millis tDone
      lastRxByteAt := millis tDone
      state := .rxWait },
    [.wrote t e.txFrame])

/-! ## Receiving -/

def silenceGapMs (e : ModbusExecutor) : UInt32 :=
  let t35 := (39 * 1000 + e.baudRateHint / 2) / e.baudRateHint + 1
  if t35 < 5 then 5 else t35

/-- The length the header of a reply announces; zero for a function code the
framing does not know. -/
def expectedLength (frame : Bytes) : Nat :=
  let function := frame.getD 1 0
  if function &&& 0x80 ≠ 0 then 5
  else if 0x01 ≤ function ∧ function ≤ 0x04 then 3 + (frame.getD 2 0).toNat + 2
  else if function = 0x05 ∨ function = 0x06 ∨ function = 0x0F ∨ function = 0x10 then 8
  else 0

/-- The end of `finish_line_ok_`: the frame replaces the request, the gap
counts from now, and the line is done. -/
def settleLine (t : Nat) (e : ModbusExecutor) : ModbusExecutor :=
  { e with
    header :=
      { e.header with
        lines := e.header.lines.modify e.lineIndex fun l =>
          { l with modbus := bytesToHex e.rxFrame } }
    gapUntil := millis t + e.nextGapMs
    lineIndex := e.lineIndex + 1 }

/-- `t` is the reading that ends the command, `tNext` the one a next line with
bad hex would take. -/
def acceptReply (t tNext : Nat) (e : ModbusExecutor) : ModbusExecutor × List Event :=
  let r := startNextLine tNext (e.settleLine t)
  (r.1, .answered t (e.header.lines.getD e.lineIndex default) e.rxFrame ::
    .gapUntil (t + e.nextGapMs.toNat) :: r.2)

def finishLineOk (t tNext : Nat) (e : ModbusExecutor) : ModbusExecutor × List Event :=
  if e.rxFrame.length < 4 then failLine t .tooShort e
  else if crcOk e.rxFrame = false then failLine t .invalidCrc e
  else acceptReply t tNext e

/-- The bytes one call of `handle_rx_` takes over from the UART. -/
def receive (t : Nat) (rx : Bytes) (e : ModbusExecutor) : ModbusExecutor :=
  let got := rx.take (maxFrameSize - e.rxFrame.length)
  { e with
    rxFrame := e.rxFrame ++ got
    lastRxByteAt := if got.isEmpty then e.lastRxByteAt else millis t }

/-- The tail of `handle_rx_`: the frame is not complete, is it too late? -/
def checkTimeout (c : BusConfig) (t tEnd : Nat) (e : ModbusExecutor) :
    ModbusExecutor × List Event :=
  if elapsed (millis t) e.txDoneAt c.responseTimeoutMs then failLine tEnd .responseTimeout e
  else (e, [])

def handleRx (c : BusConfig) (rx : Bytes) (t tEnd tNext : Nat) (e₀ : ModbusExecutor) :
    ModbusExecutor × List Event :=
  let e := receive t rx e₀
  let expected := expectedLength e.rxFrame
  if e.rxFrame.length < 3 then checkTimeout c t tEnd e
  else if 0 < expected ∧ expected ≤ e.rxFrame.length then
    finishLineOk tEnd tNext { e with rxFrame := e.rxFrame.take expected }
  else if expected = 0 ∧ elapsed (millis t) e.lastRxByteAt e.silenceGapMs = true then
    finishLineOk tEnd tNext e
  else checkTimeout c t tEnd e

/-- `t₁` is the first clock reading of the call: the comparison with the gap,
or `now` in `handle_rx_`. -/
def loop (c : BusConfig) (rx : Bytes) (t₁ t₂ t₃ : Nat) (e : ModbusExecutor) :
    ModbusExecutor × List Event :=
  match e.state with
  | .idle | .done => (e, [])
  | .gap => if reached (millis t₁) e.gapUntil then transmitCurrent c t₁ t₂ e else (e, [])
  | .transmit => (e, [])
  | .rxWait => handleRx c rx t₁ t₂ t₃ e

end ModbusExecutor

/-! ## What a batch under way is given -/

/-- A call of `loop`: what the UART holds for it, and its clock readings. -/
structure LoopCall where
  rx : Bytes
  t₁ : Nat
  t₂ : Nat
  t₃ : Nat

/-- Between `start` and `take_result` the executor sees its calls of `loop` and,
now and then, a new baud rate (the end of `apply_baud_rate`). -/
inductive BusCall
  | poll (call : LoopCall)
  | baudRate (baud : UInt32)

namespace ModbusExecutor

def poll (c : BusConfig) (call : LoopCall) (e : ModbusExecutor) :
    ModbusExecutor × List Event :=
  loop c call.rx call.t₁ call.t₂ call.t₃ e

def serve (c : BusConfig) : BusCall → ModbusExecutor → ModbusExecutor × List Event
  | .poll call, e => poll c call e
  | .baudRate baud, e => ({ e with baudRateHint := if baud = 0 then 9600 else baud }, [])

end ModbusExecutor

end Gbb
