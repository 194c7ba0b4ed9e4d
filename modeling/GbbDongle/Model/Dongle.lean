import GbbDongle.Lib.History
import GbbDongle.Model.LogRing
import GbbDongle.Model.Manager

/-!
# The device (`gbb_dongle.h`, `gbb_dongle.cpp`)

Everything runs on the main loop: `on_cloud_message_` when the broker
delivers, a switch or select when somebody turns it, and `loop`. Only the log
hook may fire from another task, at any point.

`loop` is cut here where its calls are cut in the source, into five stages, so
that a run shows the state between the result that is handled and the set that
is started next. The program counter in `World.stage` keeps the stages in
their order; nothing but the log hook comes between two of them.
`loop_is_its_stages` says that the five stages in a row are `GbbDongle::loop`.
-/

namespace Gbb

open History Wrap

/-- `KEEPALIVE_INTERVAL_MS`. -/
def keepaliveIntervalMs : UInt32 := 60 * 1000

/-- `LAST_LOG_MAX_BYTES`. -/
def lastLogMaxBytes : Nat := 3 * 1024

structure Config where
  bus : BusConfig := {}
  emergency : EmergencyConfig := {}
  version : Bytes := text "dev"
  environment : Bytes := text "GbbDongle"
  clientEnvironment : Bytes := text "GbbDongle"

/-- The identity of `publish_response_`, with `CLIENT_NAME`. -/
def Config.identity (c : Config) : GbbClientIdentity :=
  ⟨c.version, c.environment, text "GbbDongle", c.clientEnvironment⟩

structure GbbDongle where
  executor : ModbusExecutor := {}
  logBuffer : LogRingBuffer := {}
  /-- The gate `log_level_pref_` would restore at the next boot. -/
  logLevelPref : Option UInt8 := none
  pendingRequest : Option GbbHeader := none
  cloudConfigured : Bool := false
  cloudEnablePending : Bool := false
  lastKeepalive : UInt32 := 0
  requestsReceived : UInt32 := 0
  requestsHandled : UInt32 := 0
  emergency : EmergencyManager := {}

/-- Where `loop` is. -/
inductive Stage
  | outside
  | poll
  | dispatch
  | execute
  | keepalive
  | emergency
deriving DecidableEq

/-- The device, the flash key and the persist switch, the real time in
milliseconds since boot, and where `loop` is. -/
structure World where
  dongle : GbbDongle := {}
  flash : Flash := none
  persistSwitch : Option Bool := none
  now : Nat := 0
  stage : Stage := .outside

abbrev World.executor (w : World) : ModbusExecutor := w.dongle.executor

abbrev World.manager (w : World) : EmergencyManager := w.dongle.emergency

abbrev World.sets (w : World) : Sets := w.dongle.emergency.store.sets

abbrev World.pending (w : World) : Option GbbHeader := w.dongle.pendingRequest

section
variable (P : Platform) (c : Config)

/-! ## Outside the loop -/

/-- What boot finds: flash, the switch as restored, and the settings. -/
structure BootInput where
  flash : Flash
  persistSwitch : Option Bool
  logGate : Option UInt8 := none
  /-- Nothing when the allocation fails. -/
  logBufferSize : Option Nat := some 65536
  baudRate : UInt32 := 9600
  cloudConfigured : Bool := true
  cloudEnabled : Bool := true
  nvsSync : NvsOutcome := .ok
  nvsLoad : NvsOutcome := .ok

/-- `GbbDongle::setup` on a device that has just been powered up. The default
gate is `ESPHOME_LOG_LEVEL_DEBUG`. -/
def setup (b : BootInput) : World × List Event :=
  let m := ({} : EmergencyManager).setup P b.nvsSync b.nvsLoad b.persistSwitch b.flash
  ({ dongle :=
      { executor := { baudRateHint := b.baudRate }
        logBuffer := { ({} : LogRingBuffer).init b.logBufferSize with
          levelGate := b.logGate.getD 5 }
        logLevelPref := b.logGate
        cloudConfigured := b.cloudConfigured
        cloudEnablePending := b.cloudConfigured && b.cloudEnabled
        emergency := m.1 }
     flash := m.2.1
     persistSwitch := b.persistSwitch },
    m.2.2)

/-- `str_equals_case_insensitive` against an ASCII literal. -/
def equalsCaseInsensitive (a b : Bytes) : Bool :=
  let lower : UInt8 → UInt8 := fun ch => if 65 ≤ ch ∧ ch ≤ 90 then ch + 32 else ch
  a.map lower == b.map lower

/-- `apply_log_level_`: WARN, DEBUG and VERY_VERBOSE are 2, 5 and 7. -/
def applyLogLevel (level : Bytes) (g : GbbDongle) : GbbDongle :=
  let gate? : Option UInt8 :=
    if equalsCaseInsensitive level (text "OnlyErrors") then some 2
    else if equalsCaseInsensitive level (text "Min") then some 5
    else if equalsCaseInsensitive level (text "Max") then some 7
    else none
  match gate? with
  | none => g
  | some gate =>
      if gate = g.logBuffer.levelGate then g
      else { g with logBuffer := { g.logBuffer with levelGate := gate }, logLevelPref := some gate }

/-- A message that parsed, from `apply_log_level_` on. The `LinesOnNoInvSetup`
that the store may have moved out of the pending header are never looked at
again. -/
def acceptHeader (wall : ESPTime) (o : NvsOutcome) (header : GbbHeader) (w : World) :
    World × List Event :=
  let g := if header.hasLogLevel then applyLogLevel header.logLevel w.dongle else w.dongle
  let r := g.emergency.handleFields P c.emergency wall o header w.flash
  ({ w with
      dongle := { g with emergency := r.1, pendingRequest := some header }
      flash := r.2.1 },
    r.2.2 ++ [.accepted header])

/-- The header of a payload that `on_cloud_message_` accepts. -/
def acceptedHeader (payload : Bytes) : Option GbbHeader :=
  if payload.length > maxToDevicePayload then none else parseHeader P payload

def onCloudMessage (payload : Bytes) (wall : ESPTime) (o : NvsOutcome) (w : World) :
    World × List Event :=
  let w := { w with
    dongle := { w.dongle with requestsReceived := w.dongle.requestsReceived + 1 } }
  match acceptedHeader P payload with
  | none => (w, [])
  | some header => acceptHeader P c wall o header w

/-- The state callback that `EmergencyManager::setup` puts on the switch. -/
def togglePersist (on : Bool) (o : NvsOutcome) (w : World) : World × List Event :=
  match w.persistSwitch with
  | none => (w, [])
  | some _ =>
      let s := w.dongle.emergency.store.setPersistEnabled P o on w.flash
      ({ w with
          dongle := { w.dongle with emergency := { w.dongle.emergency with store := s.1 } }
          flash := s.2.1
          persistSwitch := some on },
        s.2.2)

/-- `apply_uart_settings_`, as far as the executor sees it. -/
def applyBaudRate (baud : UInt32) (w : World) : World :=
  { w with
    dongle := { w.dongle with
      executor := { w.dongle.executor with baudRateHint := if baud = 0 then 9600 else baud } } }

def logHook (level : UInt8) (message : Bytes) (w : World) : World :=
  { w with dongle := { w.dongle with logBuffer := w.dongle.logBuffer.append level message } }

/-! ## The stages of the loop -/

/-- The head of `loop`: connect once the network is up. -/
def enterLoop (networkUp : Bool) (w : World) : World × List Event :=
  if w.dongle.cloudEnablePending && networkUp then
    ({ w with dongle := { w.dongle with cloudEnablePending := false } }, [.mqttEnabled])
  else (w, [])

/-- The log text a response asks for, and the ring after it was read. -/
def takeLastLog (header : GbbHeader) (r : LogRingBuffer) : Option Bytes × LogRingBuffer :=
  if header.hasSendLastLog && header.sendLastLog != 0 then
    let l := r.readIncremental lastLogMaxBytes
    (some l.1, l.2)
  else (none, r)

/-- The text `publish_response_` settles on, if it fits: with the log, or
without it when the log makes it too long. -/
def chooseResponse (header : GbbHeader) (clientInfo : Bytes) (lastLog : Option Bytes) :
    Option Bytes :=
  let full := buildResponse P header c.identity clientInfo lastLog
  let response :=
    if jsonBuildTruncatedSize ≤ full.length ∧ lastLog.isSome = true then
      buildResponse P header c.identity clientInfo none
    else full
  if jsonBuildTruncatedSize ≤ response.length then none else some response

def publishResponse (clientInfo : Bytes) (header : GbbHeader) (w : World) :
    World × List Event :=
  let l := takeLastLog header w.dongle.logBuffer
  let g := { w.dongle with logBuffer := l.2 }
  match chooseResponse P c header clientInfo l.1 with
  | none => ({ w with dongle := g }, [.finished header])
  | some response =>
      ({ w with dongle := { g with requestsHandled := g.requestsHandled + 1 } },
        [.finished header, .published response])

def pollResult (t : Nat) (clientInfo : Bytes) (o : NvsOutcome) (w : World) :
    World × List Event :=
  if w.dongle.executor.hasResult then
    let r := w.dongle.executor.takeResult
    let w := { w with dongle := { w.dongle with executor := r.2 } }
    if r.1.emergency then
      let h := w.dongle.emergency.handleResult P c.emergency t o r.1 w.flash
      ({ w with dongle := { w.dongle with emergency := h.1 }, flash := h.2.1 }, h.2.2)
    else publishResponse P c clientInfo r.1 w
  else (w, [])

def dispatch (t : Nat) (w : World) : World × List Event :=
  if w.dongle.executor.busy then (w, [])
  else if w.dongle.emergency.wantsBus then
    let r := w.dongle.emergency.startNextSet t w.dongle.executor
    ({ w with dongle := { w.dongle with emergency := r.1, executor := r.2.1 } }, r.2.2)
  else
    match w.dongle.pendingRequest with
    | none => (w, [])
    | some header =>
        let r := w.dongle.executor.start t header
        ({ w with dongle := { w.dongle with executor := r.1, pendingRequest := none } },
          .started header :: r.2)

def runExecutor (rx : Bytes) (t₁ t₂ t₃ : Nat) (w : World) : World × List Event :=
  let r := w.dongle.executor.loop c.bus rx t₁ t₂ t₃
  ({ w with dongle := { w.dongle with executor := r.1 } }, r.2)

def sendKeepalive (t : Nat) (connected : Bool) (w : World) : World × List Event :=
  if w.dongle.cloudConfigured && connected &&
      elapsed (millis t) w.dongle.lastKeepalive keepaliveIntervalMs then
    ({ w with dongle := { w.dongle with lastKeepalive := millis t } }, [.keepalive])
  else (w, [])

def runEmergency (t₁ t₂ : Nat) (wall : ESPTime) (w : World) : World × List Event :=
  let r := w.dongle.emergency.loop c.emergency t₁ t₂ wall
  ({ w with dongle := { w.dongle with emergency := r.1 } }, r.2)

/-! ## Acts and steps -/

/-- One thing the device does. A `wait` is the real time that goes by before a
clock reading, so that readings never go back and may be any time apart. -/
inductive Act
  | message (payload : Bytes) (wall : ESPTime) (nvs : NvsOutcome)
  | persistSwitch (on : Bool) (nvs : NvsOutcome)
  | baudRate (baud : UInt32)
  | log (level : UInt8) (line : Bytes)
  | enter (networkUp : Bool)
  | poll (wait : Nat) (clientInfo : Bytes) (nvs : NvsOutcome)
  | dispatch (wait : Nat)
  | execute (rx : Bytes) (wait₁ wait₂ wait₃ : Nat)
  | keepalive (wait : Nat) (connected : Bool)
  | emergency (wait₁ wait₂ : Nat) (wall : ESPTime)
  | boot (b : BootInput)

/-- The stage in which an act can happen; the log hook fires in any. -/
def Act.fits : Act → Stage → Bool
  | .message .., s | .persistSwitch .., s | .baudRate _, s | .enter _, s => s == .outside
  | .log .., _ => true
  | .poll .., s => s == .poll
  | .dispatch _, s => s == .dispatch
  | .execute .., s => s == .execute
  | .keepalive .., s => s == .keepalive
  | .emergency .., s => s == .emergency
  | .boot _, _ => false

/-- The stage an act leads to. -/
def Act.next : Act → Stage → Stage
  | .message .., _ | .persistSwitch .., _ | .baudRate _, _ => .outside
  | .log .., s => s
  | .enter _, _ => .poll
  | .poll .., _ => .dispatch
  | .dispatch _, _ => .execute
  | .execute .., _ => .keepalive
  | .keepalive .., _ => .emergency
  | .emergency .., _ => .outside
  | .boot _, _ => .outside

/-- The real time that goes by in an act. -/
def Act.wait : Act → Nat
  | .poll wait _ _ | .dispatch wait | .keepalive wait _ => wait
  | .execute _ wait₁ wait₂ wait₃ => wait₁ + wait₂ + wait₃
  | .emergency wait₁ wait₂ _ => wait₁ + wait₂
  | .message .. | .persistSwitch .. | .baudRate _ | .log .. | .enter _ | .boot _ => 0

/-- What an act does, the program counter and the time aside. -/
def Act.run (a : Act) (w : World) : World × List Event :=
  match a with
  | .message payload wall nvs => onCloudMessage P c payload wall nvs w
  | .persistSwitch on nvs => togglePersist P on nvs w
  | .baudRate baud => (applyBaudRate baud w, [])
  | .log level line => (logHook level line w, [])
  | .enter networkUp => enterLoop networkUp w
  | .poll wait clientInfo nvs => pollResult P c (w.now + wait) clientInfo nvs w
  | .dispatch wait => Gbb.dispatch (w.now + wait) w
  | .execute rx wait₁ wait₂ wait₃ =>
      runExecutor c rx (w.now + wait₁) (w.now + wait₁ + wait₂)
        (w.now + wait₁ + wait₂ + wait₃) w
  | .keepalive wait connected => sendKeepalive (w.now + wait) connected w
  | .emergency wait₁ wait₂ wall =>
      runEmergency c (w.now + wait₁) (w.now + wait₁ + wait₂) wall w
  | .boot b => setup P b

/-- The world after an act. -/
def Act.perform (a : Act) (w : World) : World × List Event :=
  let r := a.run P c w
  ({ r.1 with now := w.now + a.wait, stage := a.next w.stage }, r.2)

abbrev Moment := Move World Act Event

/-- The moves of a running device. -/
def Step (m : Moment) : Prop :=
  m.act.fits m.pre.stage = true ∧ (m.post, m.evs) = m.act.perform P c m.pre

/-- Runs of the device after `setup()`, the calls of `loop` stage by stage. -/
abbrev Runs (w₀ : World) (es : List Moment) (w : World) : Prop := Run (Step P c) w₀ es w

/-- A reboot: RAM is lost, the flash key and the switch are as they were. -/
def Reboot (m : Moment) : Prop :=
  ∃ b, m.act = .boot b ∧ b.flash = m.pre.flash ∧ b.persistSwitch = m.pre.persistSwitch ∧
    (m.post, m.evs) = m.act.run P c m.pre

/-- Runs with any number of reboots in them. -/
abbrev Lives (w₀ : World) (es : List Moment) (w : World) : Prop :=
  Run (fun m => Step P c m ∨ Reboot P c m) w₀ es w

/-! ## The loop as one call -/

/-- What one call of `loop` meets. -/
structure LoopInput where
  networkUp : Bool
  tPoll : Nat
  clientInfo : Bytes
  nvs : NvsOutcome
  tDispatch : Nat
  rx : Bytes
  wait₁ : Nat
  wait₂ : Nat
  wait₃ : Nat
  tKeepalive : Nat
  connected : Bool
  tCheck : Nat
  tTrigger : Nat
  wall : ESPTime

/-- `GbbDongle::loop`: its statements in their order, the waits of the input
being the time that goes by before each clock reading. -/
def loop (i : LoopInput) (w : World) : World × List Event :=
  let r₀ := enterLoop i.networkUp w
  let t₁ := w.now + i.tPoll
  let r₁ := pollResult P c t₁ i.clientInfo i.nvs r₀.1
  let t₂ := t₁ + i.tDispatch
  let r₂ := Gbb.dispatch t₂ r₁.1
  let t₃ := t₂ + i.wait₁ + i.wait₂ + i.wait₃
  let r₃ := runExecutor c i.rx (t₂ + i.wait₁) (t₂ + i.wait₁ + i.wait₂) t₃ r₂.1
  let t₄ := t₃ + i.tKeepalive
  let r₄ := sendKeepalive t₄ i.connected r₃.1
  let t₅ := t₄ + i.tCheck + i.tTrigger
  let r₅ := runEmergency c (t₄ + i.tCheck) t₅ i.wall r₄.1
  ({ r₅.1 with now := t₅, stage := .outside }, r₀.2 ++ r₁.2 ++ r₂.2 ++ r₃.2 ++ r₄.2 ++ r₅.2)

/-- The stages of one call. -/
def LoopInput.acts (i : LoopInput) : List Act :=
  [.enter i.networkUp, .poll i.tPoll i.clientInfo i.nvs, .dispatch i.tDispatch,
    .execute i.rx i.wait₁ i.wait₂ i.wait₃, .keepalive i.tKeepalive i.connected,
    .emergency i.tCheck i.tTrigger i.wall]

/-- Acts one after the other, with the moves they make. -/
def performAll : List Act → World → List Moment × World
  | [], w => ([], w)
  | a :: rest, w =>
      let r := a.perform P c w
      let l := performAll rest r.1
      (⟨w, a, r.2, r.1⟩ :: l.1, l.2)

end

end Gbb
