import GbbDongle.Proofs.System

/-!
# A device on the bench

The results about runs hold for any JSON library and any hash that behave as
documented. Here is one of each: documents are rendered as ArduinoJson renders
them, read back from a table of the documents a scenario uses, and hashed with
FNV-1. A scenario is a list of acts, and acts that fit one after the other make
a run.
-/

namespace Gbb

open History

/-! ## A library -/

/-- A character of a JSON string. -/
def escapeByte (b : UInt8) : Bytes :=
  if b = 34 then text "\\\""
  else if b = 92 then text "\\\\"
  else if b = 10 then text "\\n"
  else if b = 13 then text "\\r"
  else if b = 9 then text "\\t"
  else [b]

def quote (s : Bytes) : Bytes := text "\"" ++ s.flatMap escapeByte ++ text "\""

mutual
/-- The minified text of a document. -/
def Json.render : Json → Bytes
  | .null => text "null"
  | .bool b => text (toString b)
  | .int n => text (toString n)
  | .float literal => literal
  | .str s => quote s
  | .arr elems => text "[" ++ Json.renderElems elems ++ text "]"
  | .obj members => text "\x7b" ++ Json.renderMembers members ++ text "\x7d"

def Json.renderElems : List Json → Bytes
  | [] => []
  | [j] => j.render
  | j :: rest => j.render ++ text "," ++ Json.renderElems rest

def Json.renderMembers : List (String × Json) → Bytes
  | [] => []
  | [(key, j)] => quote (text key) ++ text ":" ++ j.render
  | (key, j) :: rest =>
      quote (text key) ++ text ":" ++ j.render ++ text "," ++ Json.renderMembers rest
end

/-- `fnv1_hash`. -/
def fnv1 (b : Bytes) : UInt32 := b.foldl (fun h ch => (h * 16777619) ^^^ ch.toUInt32) 2166136261

/-- A library that can read the documents in `docs`. -/
def bench (docs : List Json) : Platform where
  deserialize payload := docs.find? fun doc => doc.render == payload
  serialize := Json.render
  fnv1Hash := fnv1

/-- Rendered documents that differ are read back. -/
theorem bench_roundTrip {docs : List Json} {doc : Json} (hmem : doc ∈ docs)
    (hinj : ∀ other ∈ docs, other.render = doc.render → other = doc) :
    (bench docs).deserialize ((bench docs).serialize doc) = some doc := by
  show docs.find? (fun other => other.render == doc.render) = some doc
  cases h : docs.find? fun other => other.render == doc.render with
  | none =>
      rw [List.find?_eq_none] at h
      exact absurd (beq_self_eq_true doc.render) (h doc hmem)
  | some other =>
      have heq := List.find?_some h
      rw [hinj other (List.mem_of_find?_eq_some h) (by simpa using heq)]

/-! ## Scenarios -/

variable {P : Platform} {c : Config}

/-- Every act happens in a stage it fits. -/
def fitsAll : List Act → Stage → Bool
  | [], _ => true
  | a :: rest, s => a.fits s && fitsAll rest (a.next s)

theorem performAll_runs : {acts : List Act} → {w : World} → fitsAll acts w.stage = true →
    Runs P c w (performAll P c acts w).1 (performAll P c acts w).2
  | [], _, _ => .nil
  | _ :: _, _, h => by
      rw [fitsAll, Bool.and_eq_true] at h
      exact performAll_cons h.1 (performAll_runs h.2)

/-- One call of `loop`, `wait` milliseconds after the last. -/
def callAfter (wait : Nat) (rx : Bytes) (wall : ESPTime) : List Act :=
  [.enter false, .poll wait [] .ok, .dispatch 0, .execute rx 0 0 0, .keepalive 0 false,
    .emergency 0 0 wall]

/-- The document arrives. -/
def arrives (doc : Json) (wall : ESPTime) : Act := .message doc.render wall .ok

def Act.isMessage : Act → Bool
  | .message .. => true
  | _ => false

/-- A valid reading of the wall clock, by hour and minute. -/
def clockAt (hour minute : Nat) : ESPTime :=
  ⟨(480000 + hour) * 3600 + minute * 60, true, fun _ => by omega⟩

/-- A message of one line, to be run now or kept for the inverter `sn`. -/
def lineDoc (lineNo : Int) (hex : String) : Json :=
  .obj [("LineNo", .int lineNo), ("Modbus", .str (text hex))]

def requestDoc (orderId hex : String) : Json :=
  .obj [("OrderId", .str (text orderId)), ("Lines", .arr [lineDoc 1 hex])]

def keepDoc (isInvSetup : Int) (sn hex : String) : Json :=
  .obj [("SubInverterSN", .str (text sn)), ("IsInvSetup", .int isInvSetup),
    ("LinesOnNoInvSetup", .arr [lineDoc 1 hex])]

/-- A device with an erased flash and no persist switch. -/
def unplugged : BootInput where
  flash := none
  persistSwitch := none
  logBufferSize := none

/-! ## Cutting a run -/

/-- A stretch cut out of a run. -/
theorem cut_eq {α : Type*} (es : List α) (i n : Nat) :
    es = es.take i ++ (es.drop i).take n ++ (es.drop i).drop n := by
  rw [List.append_assoc, List.take_append_drop, List.take_append_drop]

/-- One move picked out of a run. -/
theorem pick_one {α : Type*} (es : List α) (i : Nat) (h : i < es.length) :
    es = es.take i ++ es[i] :: es.drop (i + 1) := by
  rw [← List.drop_eq_getElem_cons h, List.take_append_drop]

/-- Two moves picked out of a run. -/
theorem pick_two {α : Type*} (es : List α) (i n : Nat) (h : i + 1 + n < es.length) :
    es = es.take i ++ es[i] :: (es.drop (i + 1)).take n ++
      es[i + 1 + n] :: es.drop (i + 1 + n + 1) := by
  have h1 : es.drop i = es[i] :: es.drop (i + 1) := List.drop_eq_getElem_cons (by omega)
  have h2 : es.drop (i + 1 + n) = es[i + 1 + n] :: es.drop (i + 1 + n + 1) :=
    List.drop_eq_getElem_cons h
  have h3 : (es.drop (i + 1)).take n ++ es.drop (i + 1 + n) = es.drop (i + 1) := by
    rw [show es.drop (i + 1 + n) = (es.drop (i + 1)).drop n from List.drop_drop.symm]
    exact List.take_append_drop n _
  rw [← h2, List.append_assoc, List.cons_append, h3, ← h1, List.take_append_drop]

/-! ## A night -/

/-- An emergency at twenty past two: two sets go out, one after the other,
and a request for the cloud comes in between. -/
def night : List Act :=
  [arrives (keepDoc 1 "A" "01060001000259CB") (clockAt 0 0),
    arrives (keepDoc 1 "B" "0206000100039838") (clockAt 0 0)] ++
  callAfter 5000 [] (clockAt 2 20) ++
  callAfter 1 [] (clockAt 2 20) ++
  [arrives (requestDoc "7" "01030204000345B2") (clockAt 2 20)] ++
  callAfter 100 [0x01, 0x06, 0x00, 0x01, 0x00, 0x02, 0x59, 0xCB] (clockAt 2 20) ++
  callAfter 1 [] (clockAt 2 20) ++
  callAfter 4000 [] (clockAt 2 20) ++
  callAfter 100 [0x02, 0x06, 0x00, 0x01, 0x00, 0x03, 0x98, 0x38] (clockAt 2 20) ++
  callAfter 1 [] (clockAt 2 20)

def nightDevice : Platform :=
  bench [keepDoc 1 "A" "01060001000259CB", keepDoc 1 "B" "0206000100039838",
    requestDoc "7" "01030204000345B2"]

/-- What a device without persistence makes of it. -/
def nightRun : List Moment :=
  (performAll nightDevice {} night (setup nightDevice unplugged).1).1

end Gbb
