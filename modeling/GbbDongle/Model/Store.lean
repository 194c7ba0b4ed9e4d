import GbbDongle.Model.Event

/-!
# The stored sets (`emergency_store.h`, `emergency_store.cpp`)

The map of emergency sets, a revision number for each of its keys, and one
flash key that is meant to mirror the map while persistence is on. Flash is
what the key holds, if anything; every call into NVS may fail, which is an
input of the function that makes it.
-/

namespace Gbb

/-- Which of the NVS calls of one store operation succeed. -/
structure NvsOutcome where
  opens : Bool := true
  sets : Bool := true
  commits : Bool := true
  erases : Bool := true
  /-- `nvs_get_blob` asking for the length, and then for the bytes. -/
  sizes : Bool := true
  reads : Bool := true
deriving DecidableEq

/-- Every call succeeds. -/
def NvsOutcome.ok : NvsOutcome := {}

/-- What the NVS key holds. -/
abbrev Flash := Option Bytes

structure EmergencyStore where
  sets : Sets := .empty
  revisions : OrdMap Bytes UInt32 := .empty
  nextRevision : UInt32 := 0
  persistEnabled : Bool := false
  persistedHash : UInt32 := 0

/-- Line numbers and payloads agree; tags and timestamps do not count. -/
def sameExecutionContent : List GbbLine → List GbbLine → Bool
  | [], [] => true
  | x :: a, y :: b =>
      x.lineNo == y.lineNo && x.hasModbus == y.hasModbus && x.modbus == y.modbus &&
        sameExecutionContent a b
  | _, _ => false

namespace EmergencyStore

def clear (key : Bytes) (s : EmergencyStore) : EmergencyStore :=
  { s with sets := s.sets.erase key, revisions := s.revisions.erase key }

def clearAll (s : EmergencyStore) : EmergencyStore :=
  { s with sets := .empty, revisions := .empty }

/-- The store branch of `set_lines`: the new lines under a fresh revision. -/
def put (key : Bytes) (lines : List GbbLine) (s : EmergencyStore) : EmergencyStore :=
  { s with
    sets := s.sets.insert key lines
    revisions := s.revisions.insert key (s.nextRevision + 1)
    nextRevision := s.nextRevision + 1 }

def setLines (key : Bytes) (lines : List GbbLine) (s : EmergencyStore) :
    Bool × EmergencyStore :=
  if lines.isEmpty then
    match s.sets.find? key with
    | none => (false, s)
    | some _ => (true, s.clear key)
  else
    match s.sets.find? key with
    | none => (true, s.put key lines)
    | some old => if sameExecutionContent old lines then (false, s) else (true, s.put key lines)

/-- Zero when the key is absent. -/
def revision (key : Bytes) (s : EmergencyStore) : UInt32 := (s.revisions.find? key).getD 0

/-- `nvs_erase_sets` on an open handle. -/
def nvsEraseSets (o : NvsOutcome) (flash : Flash) : Flash :=
  if o.erases then none else flash

def syncNvs (P : Platform) (o : NvsOutcome) (s : EmergencyStore) (flash : Flash) :
    EmergencyStore × Flash × List Event :=
  if s.persistEnabled = false ∨ o.opens = false then (s, flash, [])
  else if s.sets.isEmpty then
    if s.persistedHash = 0 then (s, flash, [])
    else ({ s with persistedHash := 0 }, nvsEraseSets o flash, [.nvsErase])
  else
    let blob := buildEmergencySets P s.sets
    if jsonBuildTruncatedSize ≤ blob.length then (s, flash, [])
    else if P.fnv1Hash blob = s.persistedHash then (s, flash, [])
    else if o.sets = false then (s, flash, [.nvsSet blob])
    else if o.commits = false then (s, some blob, [.nvsSet blob])
    else ({ s with persistedHash := P.fnv1Hash blob }, some blob, [.nvsSet blob])

def setPersistEnabled (P : Platform) (o : NvsOutcome) (enabled : Bool)
    (s : EmergencyStore) (flash : Flash) : EmergencyStore × Flash × List Event :=
  if enabled = s.persistEnabled then (s, flash, [])
  else if enabled then
    syncNvs P o { s with persistEnabled := true, persistedHash := 0 } flash
  else
    ({ s with persistEnabled := false, persistedHash := 0 },
      if o.opens then nvsEraseSets o flash else flash,
      if o.opens then [.nvsErase] else [])

/-- The loop of `load_from_nvs` that gives every restored key a revision. -/
def reviseAll : List (Bytes × List GbbLine) → OrdMap Bytes UInt32 → UInt32 →
    OrdMap Bytes UInt32 × UInt32
  | [], revisions, next => (revisions, next)
  | (key, _) :: rest, revisions, next =>
      reviseAll rest (revisions.insert key (next + 1)) (next + 1)

/-- The answer says whether there is anything to watch over. -/
def loadFromNvs (P : Platform) (o : NvsOutcome) (s : EmergencyStore) (flash : Flash) :
    Bool × EmergencyStore × Flash × List Event :=
  if o.opens = false ∨ o.sizes = false then (false, s, flash, [])
  else
    match flash with
    | none => (false, s, flash, [])
    | some blob =>
        if blob.isEmpty then (false, s, flash, [])
        else
          match if o.reads then parseEmergencySets P blob s.sets else none with
          | none =>
              (false, { s with sets := .empty }, nvsEraseSets o flash, [.nvsErase])
          | some sets =>
              let r := reviseAll sets.entries s.revisions s.nextRevision
              (!sets.isEmpty,
                { s with
                  sets := sets
                  revisions := r.1
                  nextRevision := r.2
                  persistedHash := P.fnv1Hash blob },
                flash, [])

end EmergencyStore

/-- A call into the store, with the outcome of the NVS calls it makes. -/
inductive StoreCall
  | setLines (key : Bytes) (lines : List GbbLine)
  | clear (key : Bytes)
  | clearAll
  | setPersistEnabled (enabled : Bool) (o : NvsOutcome)
  | syncNvs (o : NvsOutcome)

def StoreCall.perform (P : Platform) (call : StoreCall) (w : EmergencyStore × Flash) :
    (EmergencyStore × Flash) × List Event :=
  match call with
  | .setLines key lines => (((w.1.setLines key lines).2, w.2), [])
  | .clear key => ((w.1.clear key, w.2), [])
  | .clearAll => ((w.1.clearAll, w.2), [])
  | .setPersistEnabled enabled o =>
      let r := w.1.setPersistEnabled P o enabled w.2
      ((r.1, r.2.1), r.2.2)
  | .syncNvs o =>
      let r := w.1.syncNvs P o w.2
      ((r.1, r.2.1), r.2.2)

end Gbb
