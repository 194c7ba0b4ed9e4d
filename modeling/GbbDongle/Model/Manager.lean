import GbbDongle.Model.Executor
import GbbDongle.Model.Store

/-!
# The emergency lifecycle (`emergency_manager.h`, `emergency_manager.cpp`)

The hourly deadline, the send cycle over the stored sets and the retry. A
cycle is queued by `check_trigger_`, walked by `start_next_set` one key at a
time, and left again by `handle_result`; messages reach it through
`handle_fields` in any state.
-/

namespace Gbb

open Wrap

structure EmergencyConfig where
  hasTimeSource : Bool := true
  minuteThreshold : UInt8 := 10
  retryInitialMs : UInt32 := 60 * 1000
  retryMaxMs : UInt32 := 15 * 60 * 1000

/-- `time_source_->now()`, or `ESPTime{}` without a time source. -/
def EmergencyConfig.read (c : EmergencyConfig) (wall : ESPTime) : ESPTime :=
  if c.hasTimeSource then wall else .unset

/-- `CHECK_INTERVAL_MS`. -/
def checkIntervalMs : UInt32 := 5 * 1000

structure EmergencyManager where
  store : EmergencyStore := {}
  state : EmergencyState := .empty
  /-- Zero means that no InvSetup has been seen; the check never fires then. -/
  lastInvSetupTs : Nat := 0
  bootLoadedAwaitingTime : Bool := false
  invSetupAwaitingTime : Bool := false
  cloudBack : Bool := false
  walkFromStart : Bool := false
  currentKey : Bytes := []
  currentRevision : UInt32 := 0
  retryDelayMs : UInt32 := 60 * 1000
  retryAt : UInt32 := 0
  lastCheck : UInt32 := 0
  runs : UInt32 := 0
  delivered : UInt32 := 0

namespace EmergencyManager

def wantsBus (m : EmergencyManager) : Bool := m.state == .queued

/-- `persist` is the state of the persist switch, if one is configured. -/
def setup (P : Platform) (oSync oLoad : NvsOutcome) (persist : Option Bool)
    (m : EmergencyManager) (flash : Flash) : EmergencyManager × Flash × List Event :=
  match persist with
  | none | some false => (m, flash, [])
  | some true =>
      let s := m.store.setPersistEnabled P oSync true flash
      let l := s.1.loadFromNvs P oLoad s.2.1
      (if l.1 then
          { m with store := l.2.1, bootLoadedAwaitingTime := true, state := .armed }
        else { m with store := l.2.1 },
        l.2.2.1, s.2.2 ++ l.2.2.2)

/-! ## Messages -/

/-- The `IsInvSetup` half of `handle_fields`. -/
def noteInvSetup (now : ESPTime) (m : EmergencyManager) : EmergencyManager :=
  let m :=
    if now.valid then
      { m with lastInvSetupTs := now.timestamp, invSetupAwaitingTime := false }
    else { m with invSetupAwaitingTime := true }
  let m := { m with bootLoadedAwaitingTime := false }
  match m.state with
  | .backoff => { m with state := .armed }
  | .queued | .executing => { m with cloudBack := true }
  | .empty | .armed => m

/-- The state after the store has been touched by a message. -/
def afterStore (m : EmergencyManager) : EmergencyManager :=
  if m.store.sets.isEmpty then
    if m.state = .executing then m else { m with state := .empty }
  else if m.state = .empty then { m with state := .armed }
  else m

/-- The `LinesOnNoInvSetup` half of `handle_fields`. -/
def storeLines (P : Platform) (o : NvsOutcome) (key : Bytes) (lines : List GbbLine)
    (m : EmergencyManager) (flash : Flash) : EmergencyManager × Flash × List Event :=
  let r := m.store.setLines key lines
  if r.1 then
    let s := r.2.syncNvs P o flash
    (afterStore { m with store := s.1 }, s.2.1, s.2.2)
  else (afterStore m, flash, [])

def handleFields (P : Platform) (c : EmergencyConfig) (wall : ESPTime) (o : NvsOutcome)
    (header : GbbHeader) (m : EmergencyManager) (flash : Flash) :
    EmergencyManager × Flash × List Event :=
  let m₁ := if header.invSetup then m.noteInvSetup (c.read wall) else m
  let noted := if header.invSetup then [.invSetup (c.read wall)] else []
  if header.hasLinesOnNoInvSetup then
    let r := m₁.storeLines P o header.setKey header.linesOnNoInvSetup flash
    (r.1, r.2.1, noted ++ r.2.2)
  else (m₁, flash, noted)

/-! ## The trigger -/

/-- The hourly condition: past the threshold minute, with an InvSetup on
record and none since the top of the hour. -/
def overdue (c : EmergencyConfig) (ts : Nat) (m : EmergencyManager) : Bool :=
  decide (c.minuteThreshold.toNat < ts % 3600 / 60) && m.lastInvSetupTs != 0 &&
    decide (m.lastInvSetupTs < ts - ts % 3600)

def checkTrigger (c : EmergencyConfig) (t : Nat) (wall : ESPTime) (m : EmergencyManager) :
    EmergencyManager × List Event :=
  match m.state with
  | .backoff =>
      if reached (millis t) m.retryAt then
        ({ m with walkFromStart := true, state := .queued }, [.queued .retry (c.read wall)])
      else (m, [])
  | .armed =>
      if m.store.sets.isEmpty then ({ m with state := .empty }, [])
      else if (c.read wall).valid = false then (m, [])
      else if m.invSetupAwaitingTime || m.bootLoadedAwaitingTime then
        ({ m with
            invSetupAwaitingTime := false
            bootLoadedAwaitingTime := false
            lastInvSetupTs := (c.read wall).timestamp },
          [.stamped (c.read wall).timestamp])
      else if overdue c (c.read wall).timestamp m then
        ({ m with
            retryDelayMs := c.retryInitialMs
            walkFromStart := true
            state := .queued },
          [.queued .hourly (c.read wall)])
      else (m, [])
  | .empty | .queued | .executing => (m, [])

def loop (c : EmergencyConfig) (t₁ t₂ : Nat) (wall : ESPTime) (m : EmergencyManager) :
    EmergencyManager × List Event :=
  if elapsed (millis t₁) m.lastCheck checkIntervalMs then
    checkTrigger c t₂ wall { m with lastCheck := millis t₁ }
  else (m, [])

/-! ## The cycle -/

/-- The header `start_next_set` builds for one stored set. -/
def runHeader (key : Bytes) (lines : List GbbLine) : GbbHeader where
  emergency := true
  hasSubInverterSn := !key.isEmpty
  subInverterSn := key
  lines := lines

/-- Where the walk stands: at the first set, or just past the current key. -/
def nextEntry (m : EmergencyManager) : Option (Bytes × List GbbLine) :=
  if m.walkFromStart then m.store.sets.first? else m.store.sets.upperBound? m.currentKey

def startNextSet (t : Nat) (m : EmergencyManager) (e : ModbusExecutor) :
    EmergencyManager × ModbusExecutor × List Event :=
  match m.nextEntry with
  | none =>
      ({ m with
          cloudBack := false
          state := if m.store.sets.isEmpty then .empty else .armed },
        e, [])
  | some (key, lines) =>
      let r := e.start t (runHeader key lines)
      ({ m with
          walkFromStart := false
          currentKey := key
          currentRevision := m.store.revision key
          runs := m.runs + 1
          state := .executing },
        r.1, .handed m.walkFromStart key lines :: r.2)

/-- The inverter answered a line: no error on it and a frame in it. -/
def answeredLine (l : GbbLine) : Bool := l.error.isEmpty && l.carries

/-- The first half of `handle_result`: a delivered set is cleared while it is
still the one that ran. -/
def confirm (P : Platform) (o : NvsOutcome) (header : GbbHeader) (m : EmergencyManager)
    (flash : Flash) : EmergencyManager × Flash × List Event :=
  if header.lines.any answeredLine then
    if m.store.revision m.currentKey = m.currentRevision then
      let s := (m.store.clear m.currentKey).syncNvs P o flash
      ({ m with store := s.1, delivered := m.delivered + 1 }, s.2.1, s.2.2)
    else ({ m with delivered := m.delivered + 1 }, flash, [])
  else (m, flash, [])

/-- The second half: the next set of the cycle, or one of its three ends. -/
def leaveRun (c : EmergencyConfig) (t : Nat) (m : EmergencyManager) : EmergencyManager :=
  if (m.store.sets.upperBound? m.currentKey).isSome then { m with state := .queued }
  else if m.store.sets.isEmpty then
    { m with lastInvSetupTs := 0, cloudBack := false, state := .empty }
  else if m.cloudBack then { m with cloudBack := false, state := .armed }
  else
    { m with
      state := .backoff
      retryAt := millis t + m.retryDelayMs
      retryDelayMs :=
        if c.retryMaxMs < m.retryDelayMs * 2 then c.retryMaxMs else m.retryDelayMs * 2 }

def handleResult (P : Platform) (c : EmergencyConfig) (t : Nat) (o : NvsOutcome)
    (header : GbbHeader) (m : EmergencyManager) (flash : Flash) :
    EmergencyManager × Flash × List Event :=
  let r := m.confirm P o header flash
  let m' := leaveRun c t r.1
  (m', r.2.1, r.2.2 ++ [.resultHandled m.currentKey m'.state])

end EmergencyManager

end Gbb
