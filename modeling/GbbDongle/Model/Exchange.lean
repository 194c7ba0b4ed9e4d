import GbbDongle.Model.Busscan
import GbbDongle.Model.Protocol

/-!
# One exchange (`exchange` in `tools/busscan/scan.go`, the channel in `broker.go`)

A frame becomes a request with an order id of its own; the answer is the first
payload out of the channel that carries this id and has a line. The channel is
filled by the broker, with whatever comes in on `fromDevice`, and drops what it
has no room for.

Payloads are documents here too. How a text becomes one is the business of
`encoding/json`, and so is the replacement of invalid UTF-8; what `Unmarshal`
does with a document and the structs of `scan.go` is spelled out.
-/

namespace Gbb.Busscan

/-! ## The structs -/

/-- `line`. -/
structure Line where
  lineNo : Int64 := 0
  tag : Bytes := []
  timestamp : Int64 := 0
  modbus : Bytes := []
  error : Bytes := []
deriving DecidableEq

/-- `header`. -/
structure Header where
  orderId : Bytes := []
  sendLastLog : Int64 := 0
  lines : List Line := []
  /-- What a longer `Lines` has left in the array behind the slice. -/
  spare : List Line := []
deriving DecidableEq

/-- The text layer of `encoding/json`: nothing for an invalid text. -/
structure GoJson where
  marshal : Json → Bytes
  unmarshal : Bytes → Option Json

/-! ## Marshal -/

/-- A `line` as a document, the fields with `omitempty` only when not empty. -/
def Line.doc (l : Line) : Json :=
  .obj <|
    [("LineNo", .int l.lineNo.toInt)] ++
    optMember (!l.tag.isEmpty) "Tag" (.str l.tag) ++
    [("Timestamp", .int l.timestamp.toInt)] ++
    optMember (!l.modbus.isEmpty) "Modbus" (.str l.modbus) ++
    optMember (!l.error.isEmpty) "Error" (.str l.error)

def Header.doc (h : Header) : Json :=
  .obj [("OrderId", .str h.orderId), ("SendLastLog", .int h.sendLastLog.toInt),
    ("Lines", .arr (h.lines.map Line.doc))]

/-! ## Unmarshal -/

/-- `foldRune`, as far as it can meet an ASCII letter: the long s and the Kelvin
sign fold too. -/
def foldRune (r : Char) : Char :=
  if r = Char.ofNat 0x17F then 'S' else if r = Char.ofNat 0x212A then 'K' else r.toUpper

/-- Whether a member is one of the field. -/
def sameName (key field : String) : Bool := key.toList.map foldRune == field.toList.map foldRune

/-- Into a `string`; `null` has no effect. -/
def intoString (j : Json) (old : Bytes) : Option Bytes :=
  match j with
  | .str s => some s
  | .null => some old
  | _ => none

/-- Into an `int` or an `int64`. -/
def intoInt (j : Json) (old : Int64) : Option Int64 :=
  match j with
  | .int n => if -2 ^ 63 ≤ n ∧ n < 2 ^ 63 then some (Int64.ofInt n) else none
  | .null => some old
  | _ => none

/-- A member of a `line`; others are skipped. -/
def intoField (key : String) (j : Json) (l : Line) : Option Line :=
  if sameName key "LineNo" then (intoInt j l.lineNo).map fun n => { l with lineNo := n }
  else if sameName key "Tag" then (intoString j l.tag).map fun s => { l with tag := s }
  else if sameName key "Timestamp" then
    (intoInt j l.timestamp).map fun n => { l with timestamp := n }
  else if sameName key "Modbus" then (intoString j l.modbus).map fun s => { l with modbus := s }
  else if sameName key "Error" then (intoString j l.error).map fun s => { l with error := s }
  else some l

def intoLine (j : Json) (l : Line) : Option Line :=
  match j with
  | .obj members => members.foldlM (fun l e => intoField e.1 e.2 l) l
  | .null => some l
  | _ => none

/-- The elements of an array, each decoded into what is there already; the
lines, and what is left past them. -/
def intoElems : List Json → List Line → Option (List Line × List Line)
  | [], old => some ([], old)
  | j :: rest, old => do
      let l ← intoLine j (old.headD {})
      let r ← intoElems rest old.tail
      return (l :: r.1, r.2)

/-- Into `Lines`; an empty array and `null` let go of the old one. -/
def intoLines (j : Json) (h : Header) : Option Header :=
  match j with
  | .arr [] | .null => some { h with lines := [], spare := [] }
  | .arr elems => (intoElems elems (h.lines ++ h.spare)).map fun r =>
      { h with lines := r.1, spare := r.2 }
  | _ => none

/-- A member of the `header`. -/
def intoHeader (key : String) (j : Json) (h : Header) : Option Header :=
  if sameName key "OrderId" then (intoString j h.orderId).map fun s => { h with orderId := s }
  else if sameName key "SendLastLog" then
    (intoInt j h.sendLastLog).map fun n => { h with sendLastLog := n }
  else if sameName key "Lines" then intoLines j h
  else some h

/-- `json.Unmarshal` into a new `header`, nothing for an error. -/
def Header.ofDoc : Json → Option Header
  | .obj members => members.foldlM (fun h e => intoHeader e.1 e.2 h) {}
  | .null => some {}
  | _ => none

/-! ## The exchange -/

/-- `orderID`. -/
def orderId (counter : UInt64) : Bytes := text "busscan-" ++ decimal counter.toNat

/-- What `exchange` asks of the dongle. -/
def request (counter : UInt64) (unix : Int64) (frameHex : Bytes) : Header where
  orderId := orderId counter
  lines := [{ tag := text "busscan", timestamp := unix, modbus := frameHex }]

/-- What a payload is to an `exchange` that waits for an answer. -/
inductive Reading
  | ignored
  | answer (frame : Bytes)
  | reported (msg : Bytes)
  | badHex
deriving DecidableEq

/-- The answer in a header, for the order id that is waited for. -/
def readHeader (id : Bytes) (resp : Header) : Reading :=
  if resp.orderId ≠ id then .ignored
  else
    match resp.lines with
    | [] => .ignored
    | l :: _ =>
        if l.error ≠ [] then .reported l.error
        else
          match hexDecode l.modbus with
          | none => .badHex
          | some frame => .answer frame

def readResponse (G : GoJson) (id raw : Bytes) : Reading :=
  match (G.unmarshal raw).bind Header.ofDoc with
  | none => .ignored
  | some resp => readHeader id resp

/-- What `exchange` returns for a reading; an error has some text. -/
inductive Reading.Returns : Reading → Exchange → Prop
  | answer (frame : Bytes) : Returns (.answer frame) (.frame frame)
  | reported (msg : Bytes) : Returns (.reported msg) (.dongleError msg)
  | badHex (err : Bytes) (ctxErr : Option Bytes) : Returns .badHex (.failed err ctxErr)

/-- `make(chan []byte, 8)`. -/
def channelCapacity : Nat := 8

/-- The order counter, the order id an `exchange` in progress waits for, and the
payloads in the channel. -/
structure Tool where
  orderCounter : UInt64 := 0
  waiting : Option Bytes := none
  responses : List Bytes := []

/-- The callback of the `fromDevice` subscription. -/
def Tool.arrive (payload : Bytes) (t : Tool) : Tool :=
  if t.responses.length < channelCapacity then { t with responses := t.responses ++ [payload] }
  else t

/-- The first half of `exchange`: stale responses are drained, the request is
published. -/
def Tool.ask (G : GoJson) (unix : Int64) (frameHex : Bytes) (t : Tool) : Tool × Bytes :=
  ({ orderCounter := t.orderCounter + 1
     waiting := some (orderId (t.orderCounter + 1))
     responses := [] },
    G.marshal (request (t.orderCounter + 1) unix frameHex).doc)

end Gbb.Busscan
