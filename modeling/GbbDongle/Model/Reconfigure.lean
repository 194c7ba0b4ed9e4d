import GbbDongle.Model.Busscan

/-!
# Pointing a dongle at busscan and back (`main.go`, `dongle.go`)

With `--dongle` the tool reads the four entities the MQTT connection depends
on, sets them to its own broker, scans, and sets them back. A setting is a POST
to the web server of the dongle, and of what becomes of a POST the tool learns
only a part: a request that failed in transport may have been acted on or not.

What the network and the dongle do is given beforehand, request by request
(`World`); the functions follow the source. A request stands for its URL.
-/

namespace Gbb.Busscan

/-- `dongleConfig`: the entity values the tool touches. -/
structure DongleConfig where
  server : Bytes
  port : Int
  tls : Bool
  cloud : Bool
deriving DecidableEq

inductive Entity
  | mqttServer
  | mqttPort
  | tls
  | cloud
deriving DecidableEq

/-! ## Requests -/

/-- The paths `applyConfig` posts to. -/
inductive Request
  | setServer (value : Bytes)
  | setPort (value : Int)
  | turnTls (on : Bool)
  | turnCloud (on : Bool)
  | pressApply
deriving DecidableEq

/-- All of them but the button write an entity. -/
def Request.setsEntity (req : Request) : Bool := req != .pressApply

/-- The dongle acts on a request. The entities keep their values over a restart. -/
def Request.perform : Request → DongleConfig → DongleConfig
  | .setServer value, cfg => { cfg with server := value }
  | .setPort value, cfg => { cfg with port := value }
  | .turnTls on, cfg => { cfg with tls := on }
  | .turnCloud on, cfg => { cfg with cloud := on }
  | .pressApply, cfg => cfg

/-- The dongle, with the requests it has acted on. -/
structure Dongle where
  config : DongleConfig
  acted : List Request := []

def Dongle.act (req : Request) (d : Dongle) : Dongle :=
  { config := req.perform d.config, acted := d.acted ++ [req] }

/-- What becomes of one attempt to send a request. A response of status 200 is
given by a dongle that has acted; a transport error tells nothing. -/
inductive Attempt
  | response (status : Nat) (acted : Bool) (ok : status = 200 → acted = true)
  | transport (acted : Bool)
  | unbuilt
deriving DecidableEq

def Attempt.acted : Attempt → Bool
  | .response _ acted _ => acted
  | .transport acted => acted
  | .unbuilt => false

/-- What a request meets with: its attempts, and whether the context is done by
the end of the second before an attempt. -/
structure Tries where
  attempt : Nat → Attempt
  cancelled : Nat → Bool := fun _ => false

/-- The `select` before an attempt that is not the first sees the context done. -/
def Tries.calledOff (tries : Tries) (attempt : Nat) : Bool :=
  decide (0 < attempt) && tries.cancelled attempt

inductive PostError
  | status (code : Nat)
  | transport
  | ctx
  | newRequest
deriving DecidableEq

/-- The loop of `post` over the attempts that are left. -/
def postFrom (tries : Tries) (req : Request) : Nat → Nat → Dongle → Option PostError × Dongle
  | 0, _, d => (some .transport, d)
  | left + 1, attempt, d =>
      if tries.calledOff attempt = true then (some .ctx, d)
      else
        let d' := if (tries.attempt attempt).acted then d.act req else d
        match tries.attempt attempt with
        | .unbuilt => (some .newRequest, d')
        | .transport _ => postFrom tries req left (attempt + 1) d'
        | .response status _ _ => (if status ≠ 200 then some (.status status) else none, d')

/-- `post`, which returns the error if there is one. -/
def post (tries : Tries) (req : Request) (d : Dongle) : Option PostError × Dongle :=
  postFrom tries req 3 0 d

/-- The `steps` of `applyConfig`. -/
def steps (cfg : DongleConfig) : List Request :=
  [.setServer cfg.server, .setPort cfg.port, .turnTls cfg.tls, .turnCloud cfg.cloud, .pressApply]

/-- The loop of `applyConfig` over the steps that are left. -/
def postAll (net : Request → Tries) : List Request → Dongle → Option PostError × Dongle
  | [], d => (none, d)
  | req :: rest, d =>
      match post (net req) req d with
      | (some err, d') => (some err, d')
      | (none, d') => postAll net rest d'

def applyConfig (net : Request → Tries) (cfg : DongleConfig) (d : Dongle) :
    Option PostError × Dongle :=
  postAll net (steps cfg) d

/-! ## The run -/

/-- Everything a run with `--dongle` depends on: the flags `--ip` and `--port`,
whether the broker starts, which entities a GET reads, the address
`advertiseIP` finds, what the requests meet with on the way there and on the
way back, whether the dongle connects, and what `scan` returns. -/
structure World where
  ipOverride : Bytes := []
  port : Int := 1883
  brokerStarts : Bool := true
  readable : Entity → Bool := fun _ => true
  advertised : Option Bytes := none
  reconfiguring : Request → Tries
  connects : Bool := true
  scanned : List Result × Option Bytes := ([], none)
  restoring : Request → Tries

/-- `get`: the value of an entity, if the GET brings one that parses. -/
def World.get (w : World) {α : Type} (ent : Entity) (value : α) : Option α :=
  if w.readable ent then some value else none

def fetchConfig (w : World) (cfg : DongleConfig) : Option DongleConfig := do
  let server ← w.get .mqttServer cfg.server
  let port ← w.get .mqttPort cfg.port
  let tls ← w.get .tls cfg.tls
  let cloud ← w.get .cloud cfg.cloud
  some { server := server, port := port, tls := tls, cloud := cloud }

/-- The address the dongle is given. -/
def localIP (w : World) : Option Bytes :=
  if w.ipOverride = [] then w.advertised else some w.ipOverride

/-- The configuration the dongle is given. -/
def target (w : World) (ip : Bytes) : DongleConfig :=
  { server := ip, port := w.port, tls := false, cloud := true }

/-- `autoReconfigure`: the saved configuration, which is what the restore
function it returns closes over, or nothing if it returns an error. -/
def autoReconfigure (w : World) (d : Dongle) : Option DongleConfig × Dongle :=
  match fetchConfig w d.config with
  | none => (none, d)
  | some saved =>
      match localIP w with
      | none => (none, d)
      | some ip =>
          match applyConfig w.reconfiguring (target w ip) d with
          | (some _, d') => (none, d')
          | (none, d') => (some saved, d')

/-- What `run` has in hand: the dongle, the variable `restore` (with nothing
for `func() {}`), whether `restoreOnce` is spent, and every `applyConfig` a
restore function has started, with its error. -/
structure Session where
  dongle : Dongle
  restore : Option DongleConfig := none
  spent : Bool := false
  restores : List (DongleConfig × Option PostError) := []

/-- `restoreOnce.Do(restore)`. -/
def restoreOnce (w : World) (s : Session) : Session :=
  if s.spent then s
  else
    match s.restore with
    | none => { s with spent := true }
    | some saved =>
        let r := applyConfig w.restoring saved s.dongle
        { s with spent := true, dongle := r.2, restores := s.restores ++ [(saved, r.1)] }

/-- `return code`, which runs the deferred restore. -/
def leave (w : World) (code : Nat) (s : Session) : Nat × Session := (code, restoreOnce w s)

/-- `run` with `--dongle`. -/
def run (w : World) (cfg : DongleConfig) : Nat × Session :=
  let s : Session := { dongle := { config := cfg } }
  if w.brokerStarts = false then (2, s)
  else
    match autoReconfigure w s.dongle with
    | (none, d) => leave w 2 { s with dongle := d }
    | (some saved, d) =>
        let s := { s with dongle := d, restore := some saved }
        if w.connects = false then leave w 2 s
        else
          let s := restoreOnce w s
          if w.scanned.2.isSome then leave w 2 s
          else leave w (if w.scanned.1.isEmpty then 1 else 0) s

end Gbb.Busscan
