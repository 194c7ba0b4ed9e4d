import GbbDongle.Model.Protocol

/-!
# What a run shows

The firmware acts on the world by writing frames to the UART, documents to the
broker and blobs to flash; and the moments the requirements talk about are
calls of its functions: a set handed to the executor, a result handled, a
cycle queued. Each function returns, next to the state it leaves, the events
it passed on the way, in order. No function reads an event.

Instants are real time: milliseconds since boot for the bus, the reading of
the wall clock for everything the hour matters to.
-/

namespace Gbb

/-- A reading of the wall clock. `is_valid()` rejects the years before 2019,
so a valid stamp is never the zero by which the manager says "none". -/
structure ESPTime where
  timestamp : Nat
  valid : Bool
  pos : valid = true → 0 < timestamp
deriving DecidableEq

/-- `ESPTime{}`, what a missing time source reads. -/
def ESPTime.unset : ESPTime := ⟨0, false, fun h => nomatch h⟩

/-- The UTC hour of an instant. -/
def hourOf (ts : Nat) : Nat := ts / 3600

/-- The four ways a line fails. -/
inductive LineFault
  | responseTimeout
  | invalidCrc
  | tooShort
  | invalidHex
deriving DecidableEq

def LineFault.message : LineFault → Bytes
  | .responseTimeout => text "Response timeout"
  | .invalidCrc => text "Invalid CRC in response"
  | .tooShort => text "Response too short"
  | .invalidHex => text "Invalid Modbus hex string"

/-- `EmergencyManager::State`. -/
inductive EmergencyState
  | empty
  | armed
  | queued
  | executing
  | backoff
deriving DecidableEq

/-- What made `check_trigger_` queue a cycle. -/
inductive Cause
  | hourly
  | retry
deriving DecidableEq

inductive Event
  /-- A frame written to the UART. -/
  | wrote (t : Nat) (frame : Bytes)
  /-- A reply with a valid CRC accepted for a line, given as it was before. -/
  | answered (t : Nat) (line : GbbLine) (frame : Bytes)
  | failed (t : Nat) (fault : LineFault)
  /-- An assignment to `gap_until_`, as a real time. -/
  | gapUntil (deadline : Nat)
  | nvsSet (blob : Bytes)
  | nvsErase
  /-- `IsInvSetup != 0` handled, with the wall clock as it read then. -/
  | invSetup (wall : ESPTime)
  /-- The first check after the sync dated an InvSetup of unknown time. -/
  | stamped (ts : Nat)
  | queued (cause : Cause) (wall : ESPTime)
  /-- `start_next_set` handed a set over; `first` when it opened the walk. -/
  | handed (first : Bool) (key : Bytes) (lines : List GbbLine)
  /-- `handle_result` ran for `key` and left the manager in `next`. -/
  | resultHandled (key : Bytes) (next : EmergencyState)
  | accepted (header : GbbHeader)
  /-- A pending cloud request handed to the executor. -/
  | started (header : GbbHeader)
  /-- The result of a cloud request, taken from the executor. -/
  | finished (header : GbbHeader)
  | published (payload : Bytes)
  | mqttEnabled
  | keepalive
deriving DecidableEq

end Gbb
