import GbbDongle.Model.Protocol

/-!
# Documents, written and read

What the firmware writes into a document it finds there again: a member that is
written under a condition is the one a reader of that key gets, or null. From
this the lines of a response echo the lines of the request, and a line that was
parsed survives being serialized and parsed once more.
-/

namespace Gbb

/-! ## Members -/

section
variable (cond : Bool) (key k : String) (value : Json) (rest : List (String × Json))

@[simp] theorem member_nil : (Json.obj []).member k = .null := rfl

@[simp] theorem member_cons :
    (Json.obj ((key, value) :: rest)).member k =
      if key = k then value else (Json.obj rest).member k := by
  by_cases h : key = k
  · rw [if_pos h, Json.member, List.find?_cons_of_pos (by simpa using h)]
    rfl
  · rw [if_neg h, Json.member, List.find?_cons_of_neg (by simpa using h)]
    rfl

@[simp] theorem member_optMember :
    (Json.obj (optMember cond key value ++ rest)).member k =
      if cond = true ∧ key = k then value else (Json.obj rest).member k := by
  rw [optMember]
  cases cond <;> simp

@[simp] theorem member_optMember_nil :
    (Json.obj (optMember cond key value)).member k =
      if cond = true ∧ key = k then value else .null := by
  rw [← List.append_nil (optMember cond key value), member_optMember, member_nil]

end

/-! ## Lines -/

/-- What a response gives back of a line, as it stands in the document. -/
def lineEcho (o : Json) : Json × Json × Json :=
  (o.member "LineNo", o.member "Tag", o.member "Timestamp")

/-- And what it should be. -/
def echoed (e : Int32 × Option Bytes × Option Int64) : Json × Json × Json :=
  (.int e.1.toInt, (e.2.1.map Json.str).getD .null, (e.2.2.map fun n => .int n.toInt).getD .null)

section
variable (l : GbbLine)

theorem serializeLine_lineNo : (serializeLine l).member "LineNo" = .int l.lineNo.toInt := by
  simp [serializeLine]

theorem serializeLine_tag :
    (serializeLine l).member "Tag" = if l.hasTag then .str l.tag else .null := by
  simp [serializeLine]

theorem serializeLine_timestamp :
    (serializeLine l).member "Timestamp" =
      if l.hasTimestamp then .int l.timestamp.toInt else .null := by
  simp [serializeLine]

theorem serializeLine_modbus :
    (serializeLine l).member "Modbus" = if l.hasModbus then .str l.modbus else .null := by
  simp [serializeLine]

theorem serializeLine_error :
    (serializeLine l).member "Error" = if l.error.isEmpty then .null else .str l.error := by
  simp only [serializeLine, List.cons_append, List.append_assoc]
  cases l.error.isEmpty <;> simp

theorem lineEcho_serializeLine : lineEcho (serializeLine l) = echoed l.echo := by
  rw [lineEcho, serializeLine_lineNo, serializeLine_tag, serializeLine_timestamp, echoed,
    GbbLine.echo]
  cases l.hasTag <;> cases l.hasTimestamp <;> rfl

end

/-- A line as parsing leaves it: strings end at their NUL, and a value without
its flag is the default. -/
structure Readable (l : GbbLine) : Prop where
  tag : NulFree l.tag ∧ (l.hasTag = false → l.tag = [])
  timestamp : l.hasTimestamp = false → l.timestamp = 0
  modbus : NulFree l.modbus ∧ (l.hasModbus = false → l.modbus = [])
  error : NulFree l.error

theorem nulFree_asStr? (j : Json) :
    NulFree (j.asStr?.getD []) ∧ (j.asStr?.isSome = false → j.asStr?.getD [] = []) := by
  cases h : j.asStr? with
  | none => exact ⟨List.not_mem_nil, fun _ => rfl⟩
  | some s => exact ⟨Json.asStr?_nulFree h, nofun⟩

theorem parseLine_readable (o : Json) : Readable (parseLine o) := by
  refine ⟨nulFree_asStr? _, fun h => ?_, nulFree_asStr? _, (nulFree_asStr? _).1⟩
  simp only [parseLine, Option.isSome_eq_false_iff, Option.isNone_iff_eq_none] at h ⊢
  rw [h]
  rfl

/-- A string that is written under its flag is read back with it. -/
theorem asStr?_flagged {has : Bool} {s : Bytes} (h : NulFree s ∧ (has = false → s = [])) :
    (if has then Json.str s else .null).asStr?.isSome = has ∧
      (if has then Json.str s else .null).asStr?.getD [] = s := by
  cases has with
  | false => exact ⟨rfl, (h.2 rfl).symm⟩
  | true => exact ⟨rfl, cstr_of_nulFree h.1⟩

/-- And one that is written unless it is empty. -/
theorem asStr?_unless_empty {s : Bytes} (h : NulFree s) :
    (if s.isEmpty then Json.null else .str s).asStr?.getD [] = s := by
  cases he : s.isEmpty with
  | false => exact cstr_of_nulFree h
  | true => exact (List.isEmpty_iff.mp he).symm

theorem asInt64?_flagged {has : Bool} {n : Int64} (h : has = false → n = 0) :
    (if has then Json.int n.toInt else .null).asInt64?.isSome = has ∧
      (if has then Json.int n.toInt else .null).asInt64?.getD 0 = n := by
  cases has with
  | false => exact ⟨rfl, (h rfl).symm⟩
  | true => simp

theorem asInt32?_flagged {has : Bool} {n : Int32} (h : has = false → n = 0) :
    (if has then Json.int n.toInt else .null).asInt32?.isSome = has ∧
      (if has then Json.int n.toInt else .null).asInt32?.getD 0 = n := by
  cases has with
  | false => exact ⟨rfl, (h rfl).symm⟩
  | true => simp

/-- What was parsed survives another round. -/
theorem parseLine_serializeLine {l : GbbLine} (h : Readable l) :
    parseLine (serializeLine l) = l := by
  rw [parseLine, serializeLine_lineNo, serializeLine_tag, serializeLine_timestamp,
    serializeLine_modbus, serializeLine_error, (asStr?_flagged h.tag).1,
    (asStr?_flagged h.tag).2, (asStr?_flagged h.modbus).1, (asStr?_flagged h.modbus).2,
    (asInt64?_flagged h.timestamp).1, (asInt64?_flagged h.timestamp).2,
    asStr?_unless_empty h.error, Json.asInt32?_toInt]
  rfl

theorem map_parseLine_serializeLine {lines : List GbbLine} (h : ∀ l ∈ lines, Readable l) :
    (lines.map serializeLine).map parseLine = lines := by
  rw [List.map_map]
  exact (List.map_congr_left fun l hl => parseLine_serializeLine (h l hl)).trans (List.map_id lines)

/-- An array of lines is read as these lines. -/
theorem parseLinesMember_serializeLineArray {lines : List GbbLine}
    (hlen : lines.length ≤ maxLinesPerArray) (h : ∀ l ∈ lines, Readable l) :
    parseLinesMember (serializeLineArray lines) = some (some lines) := by
  show (parseLineArray (lines.map serializeLine)).map some = _
  rw [parseLineArray, if_neg (by rw [List.length_map]; exact Nat.not_lt.mpr hlen),
    map_parseLine_serializeLine h]
  rfl

/-- What a member gives that may hold an array of lines. -/
theorem parseLinesMember_spec {j : Json} {lines : Option (List GbbLine)}
    (h : parseLinesMember j = some lines) :
    (lines.getD []).length ≤ maxLinesPerArray ∧ ∀ l ∈ lines.getD [], Readable l := by
  rw [parseLinesMember] at h
  split at h
  · obtain rfl := Option.some.inj h
    exact ⟨Nat.zero_le _, nofun⟩
  · next elems _ =>
      rw [parseLineArray] at h
      split at h
      · cases h
      · next hlen =>
          obtain rfl := Option.some.inj h
          refine ⟨by simpa using hlen, fun l hl => ?_⟩
          obtain ⟨o, -, rfl⟩ := List.mem_map.mp hl
          exact parseLine_readable o

/-! ## Sets -/

/-- A set as a message can store it. -/
structure StorableSet (e : Bytes × List GbbLine) : Prop where
  key : NulFree e.1
  nonempty : e.2 ≠ []
  length : e.2.length ≤ maxLinesPerArray
  readable : ∀ l ∈ e.2, Readable l

def Storable (sets : Sets) : Prop := ∀ e ∈ sets.entries, StorableSet e

/-- The loop adds the sets it reads behind those it has. -/
theorem parseSets_setDocs (rest : List (Bytes × List GbbLine)) (out : Sets)
    (hordered : (out.entries ++ rest).Pairwise fun a b => a.1 < b.1)
    (hst : ∀ e ∈ rest, StorableSet e) :
    ∃ sets, parseSets (rest.map setDoc) out = some sets ∧ sets.entries = out.entries ++ rest := by
  induction rest generalizing out with
  | nil => exact ⟨out, rfl, (List.append_nil _).symm⟩
  | cons e rest ih =>
      have he := hst e (by simp)
      have hlast : ∀ x ∈ out.entries, x.1 < e.1 := fun x hx =>
        (List.pairwise_append.mp hordered).2.2 x hx e (by simp)
      have hentries := OrdMap.entries_insert_of_lt (v := e.2) hlast
      have hlines : parseLinesMember ((setDoc e).member "Lines") = some (some e.2) := by
        have hmember : (setDoc e).member "Lines" = serializeLineArray e.2 := by simp [setDoc]
        rw [hmember]
        exact parseLinesMember_serializeLineArray he.length he.readable
      have hsn : ((setDoc e).member "SubInverterSN").asStr?.getD [] = e.1 := by
        have hmember : (setDoc e).member "SubInverterSN" = .str e.1 := by simp [setDoc]
        rw [hmember]
        exact cstr_of_nulFree he.key
      have hnonempty : (e.2.isEmpty = true) = False := by
        rw [List.isEmpty_iff]
        exact eq_false he.nonempty
      obtain ⟨sets, hparse, hsets⟩ := ih (out.insert e.1 e.2)
        (by rw [hentries, List.append_assoc]; exact hordered) fun x hx => hst x (by simp [hx])
      refine ⟨sets, ?_, by rw [hsets, hentries, List.append_assoc]; rfl⟩
      rw [List.map_cons, parseSets, hlines]
      simp only [hsn, Option.getD_some, hnonempty, if_false]
      exact hparse

/-- Sets come back as they were, from a library that reads its own text. -/
theorem parseEmergencySets_serialize {P : Platform} {sets : Sets} (hst : Storable sets)
    (hread : P.deserialize (P.serialize (setsDoc sets)) = some (setsDoc sets)) :
    parseEmergencySets P (P.serialize (setsDoc sets)) .empty = some sets := by
  obtain ⟨sets', hparse, hentries⟩ := parseSets_setDocs sets.entries .empty sets.ordered hst
  have hmember : (setsDoc sets).member "Sets" = .arr (sets.entries.map setDoc) := by
    simp [setsDoc]
  rw [parseEmergencySets, hread]
  show (((setsDoc sets).member "Sets").asArr?.bind fun elems => parseSets elems .empty) = _
  rw [hmember]
  show parseSets _ _ = _
  rw [hparse, OrdMap.ext hentries]

/-! ## Responses -/

/-- The document answers the request: its order, and its lines one by one. -/
structure Answers (request : GbbHeader) (doc : Json) : Prop where
  orderId : doc.member "OrderId" = if request.hasOrderId then .str request.orderId else .null
  lines : ((doc.member "Lines").asArr?.getD []).map lineEcho =
    request.lines.map fun l => echoed l.echo

theorem responseDoc_answers (h : GbbHeader) (id : GbbClientIdentity) (clientInfo : Bytes)
    (lastLog : Option Bytes) : Answers h (responseDoc h id clientInfo lastLog) := by
  constructor
  · simp [responseDoc]
  · have hlines : (responseDoc h id clientInfo lastLog).member "Lines" =
        if h.lines.isEmpty then .null else serializeLineArray h.lines := by
      simp only [responseDoc, List.append_assoc, List.cons_append, List.nil_append]
      cases h.lines.isEmpty <;> simp
    rw [hlines]
    cases hl : h.lines with
    | nil => rfl
    | cons l ls =>
        show ((l :: ls).map serializeLine).map lineEcho = _
        rw [List.map_map]
        exact List.map_congr_left fun l _ => lineEcho_serializeLine l

end Gbb
