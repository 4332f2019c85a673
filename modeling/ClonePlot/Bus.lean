import ClonePlot.Change
import ClonePlot.Warning

/-! # The selection bus

Views that show the same selection subscribe to one bus. An event goes to every subscriber
but its sender. Each subscriber has a queue of bounded length and misses events while that
is full; one that has been dropped is removed when the next event finds it gone.
-/
namespace ClonePlot

def queueCapacity : Nat := 256

structure Subscriber where
  /-- The number of subscriptions made before this one. -/
  serial : Nat
  name : String
  queue : List Event := []
  live : Bool := true
  deriving DecidableEq, Repr

namespace Subscriber

/-- Ids are 32-bit words. -/
def idOf (serial : Nat) : Nat := serial % UInt32.size

def id (s : Subscriber) : Nat := idOf s.serial

inductive Delivery
  | echo
  | queued
  | full
  | gone
  deriving DecidableEq, Repr

def delivery (e : Event) (s : Subscriber) : Delivery :=
  if s.id = e.source then .echo
  else if !s.live then .gone
  else if s.queue.length < queueCapacity then .queued
  else .full

def deliver? (e : Event) (s : Subscriber) : Option Subscriber :=
  match s.delivery e with
  | .echo | .full => some s
  | .queued => some { s with queue := s.queue ++ [e] }
  | .gone => none

end Subscriber

structure Bus where
  subscribers : List Subscriber := []
  serials : Nat := 0
  deriving DecidableEq, Repr, Inhabited

namespace Bus

def empty : Bus := {}

def subscriberCount (bus : Bus) : Nat := bus.subscribers.length

/-- A new subscription, named by its serial number. -/
def subscribe (bus : Bus) (name : String) : Nat × Bus :=
  (bus.serials, { bus with
    subscribers := bus.subscribers ++ [{ serial := bus.serials, name }],
    serials := bus.serials + 1 })

/-- How many subscribers meet a given fate when an event is published. -/
def count (bus : Bus) (e : Event) (d : Subscriber.Delivery) : Nat :=
  bus.subscribers.countP (·.delivery e = d)

def publish (bus : Bus) (e : Event) : Bus :=
  { bus with subscribers := bus.subscribers.filterMap (·.deliver? e) }

def audience (bus : Bus) (e : Event) : Nat := bus.count e .queued

def missed (bus : Bus) (e : Event) : List Warning :=
  (bus.subscribers.filter (·.delivery e = .full)).map fun s => .queueFull s.id s.name

def find? (bus : Bus) (serial : Nat) : Option Subscriber :=
  bus.subscribers.find? fun s => s.serial = serial && s.live

def update (bus : Bus) (serial : Nat) (f : Subscriber → Subscriber) : Bus :=
  { bus with subscribers := bus.subscribers.map fun s => if s.serial = serial then f s else s }

def queue (bus : Bus) (serial : Nat) : List Event := (bus.find? serial).elim [] Subscriber.queue

def receive (bus : Bus) (serial : Nat) : Option Event × Bus :=
  ((bus.queue serial).head?, bus.update serial fun s => { s with queue := s.queue.tail })

def drain (bus : Bus) (serial : Nat) : List Event × Bus :=
  (bus.queue serial, bus.update serial fun s => { s with queue := [] })

def drop (bus : Bus) (serial : Nat) : Bus :=
  bus.update serial fun s => { s with live := false }

end Bus

/-- Running totals of a process, over all of its buses. -/
structure Telemetry where
  published : UInt64 := 0
  delivered : UInt64 := 0
  echoes : UInt64 := 0
  failures : UInt64 := 0
  deriving DecidableEq, Repr

def Telemetry.publish (t : Telemetry) (bus : Bus) (e : Event) : Telemetry where
  published := t.published + 1
  delivered := t.delivered + .ofNat (bus.count e .queued)
  echoes := t.echoes + .ofNat (bus.count e .echo)
  failures := t.failures + .ofNat (bus.count e .full)

end ClonePlot
