import GbbDongle.Lib.History
import GbbDongle.Model.Bytes

/-!
# Which dongle to ask (`tracker` and `gbbHook` in `tools/busscan/broker.go`)

The broker calls the hooks from a goroutine for each client, while the scan
waits in `waitReady` on its own. They meet in the tracker, under its mutex: a
step is what one of them does while it holds the mutex, or a receive, and steps
come in any order.

Channels are numbered as they are made. Closing a closed channel panics, which
ends the process; a function that does returns nothing.
-/

namespace Gbb.Busscan

open History

/-- `toDeviceSuffix`. -/
def toDeviceSuffix : Bytes := text "/ModbusInMqtt/toDevice"

/-- `tracker`, with the channels that are made and those of them that are
closed. -/
structure Tracker where
  plantID : Bytes := []
  clientID : Bytes := []
  ready : Nat := 0
  made : Nat := 1
  closed : List Nat := []
deriving DecidableEq

/-- `newTracker`. -/
def newTracker : Tracker := {}

namespace Tracker

/-- A receive from this channel does not block. -/
def isClosed (t : Tracker) (ch : Nat) : Bool := t.closed.contains ch

def close (ch : Nat) (t : Tracker) : Option Tracker :=
  if t.isClosed ch then none else some { t with closed := ch :: t.closed }

/-- `subscribed`; a second client is logged and nothing else. -/
def subscribed (clientID plantID : Bytes) (t : Tracker) : Option Tracker :=
  if t.clientID = [] then { t with clientID := clientID, plantID := plantID }.close t.ready
  else if clientID = t.clientID then
    if t.isClosed t.ready then some t else t.close t.ready
  else some t

/-- `disconnected`. -/
def disconnected (clientID : Bytes) (t : Tracker) : Tracker :=
  if clientID ≠ t.clientID then t
  else if t.isClosed t.ready then { t with ready := t.made, made := t.made + 1 }
  else t

end Tracker

/-- The Plant Id in a topic filter that ends in the suffix. -/
def plantOf (filter : Bytes) : Option Bytes :=
  if toDeviceSuffix.isSuffixOf filter then
    some (filter.take (filter.length - toDeviceSuffix.length))
  else none

/-- One turn of the loop in `OnSubscribed`. -/
def onSubscribed (clientID filter : Bytes) (t : Tracker) : Option Tracker :=
  match plantOf filter with
  | none => some t
  | some plantID => t.subscribed clientID plantID

/-- Where a call of `waitReady` is: before the mutex, or at its `select` with
what it read under the mutex. -/
inductive Waiter
  | locking
  | selecting (ready : Nat) (plantID : Bytes)
deriving DecidableEq

/-- The tracker, and the call of `waitReady` that is going on. -/
structure Hub where
  tracker : Tracker := newTracker
  waiter : Option Waiter := none
deriving DecidableEq

inductive HubAct
  | subscribe (clientID filter : Bytes)
  | disconnect (clientID : Bytes)
  | call
  | lock
  /-- The `select` takes the receive from `ready`. -/
  | receive
  /-- The `select` takes the receive from `ctx.Done()`. -/
  | giveUp
deriving DecidableEq

inductive HubEvent
  /-- `waitReady` returned a Plant Id. -/
  | returned (plantID : Bytes)
  | gaveUp
deriving DecidableEq

/-- Whether an act can happen. -/
def HubAct.fits (a : HubAct) (h : Hub) : Bool :=
  match a, h.waiter with
  | .subscribe .., _ | .disconnect _, _ => true
  | .call, none => true
  | .lock, some .locking => true
  | .receive, some (.selecting ready _) => h.tracker.isClosed ready
  | .giveUp, some (.selecting ..) => true
  | _, _ => false

/-- What an act does, nothing where it panics. -/
def HubAct.run (a : HubAct) (h : Hub) : Option (Hub × List HubEvent) :=
  match a with
  | .subscribe clientID filter =>
      (onSubscribed clientID filter h.tracker).map fun t => ({ h with tracker := t }, [])
  | .disconnect clientID => some ({ h with tracker := h.tracker.disconnected clientID }, [])
  | .call => some ({ h with waiter := some .locking }, [])
  | .lock =>
      some ({ h with waiter := some (.selecting h.tracker.ready h.tracker.plantID) }, [])
  | .receive =>
      match h.waiter with
      | some (.selecting _ plantID) =>
          if plantID = [] then some ({ h with waiter := some .locking }, [])
          else some ({ h with waiter := none }, [.returned plantID])
      | _ => some (h, [])
  | .giveUp => some ({ h with waiter := none }, [.gaveUp])

abbrev HubMove := Move Hub HubAct HubEvent

/-- The moves of the tool while it does not panic. -/
def HubStep (m : HubMove) : Prop :=
  m.act.fits m.pre = true ∧ m.act.run m.pre = some (m.post, m.evs)

end Gbb.Busscan
