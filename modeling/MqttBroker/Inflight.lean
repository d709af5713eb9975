import MqttBroker.Message

/-!
The in-flight window of a session: messages sent to a client and not yet acknowledged. A message
enters the window with a permit, which it gives back when it leaves.
-/

namespace MqttBroker

/-- A message in the window, with a ticket for whoever is to be told of its acknowledgment. -/
structure InflightEntry (τ : Type) where
  id : PacketId
  seq : Nat
  ticket : τ
  publish : Publish
  lastSent : Nat

structure Inflight (τ : Type) where
  capacity : Nat
  interval : Nat
  /-- The number for the next packet, as a 16-bit word; zero is passed over. -/
  nextId : Nat := 1
  nextSeq : Nat := 1
  entries : List (InflightEntry τ) := []
  permits : Nat
  closed : Bool := false

namespace Inflight

variable {τ : Type}

def new (capacity interval : Nat) : Inflight τ :=
  { capacity := max capacity 1, interval, permits := max capacity 1 }

def acquire (w : Inflight τ) : Option (Inflight τ) :=
  if w.closed then none
  else match w.permits with
    | 0 => none
    | permits + 1 => some { w with permits }

def release (w : Inflight τ) : Inflight τ := { w with permits := w.permits + 1 }

def hasCredit (w : Inflight τ) : Bool := w.permits > 0

/-- The packet id after `n` as a 16-bit word, zero passed over, and the number after it. -/
def takeId (n : Nat) : PacketId × Nat :=
  match PacketId.ofNat? (n % 65536) with
  | some id => (id, (id.val + 1) % 65536)
  | none => (.one, 2)

def find? (w : Inflight τ) (id : PacketId) : Option (InflightEntry τ) :=
  w.entries.find? fun e => e.id = id

def without (w : Inflight τ) (id : PacketId) : List (InflightEntry τ) :=
  w.entries.filter fun e => e.id ≠ id

/-- Enters a message on a permit taken before, at the time `now`. An entry that still has the
same packet id leaves. Gives the new entry and the ticket of the one that left. -/
def insert (w : Inflight τ) (ticket : τ) (message : Publish) (now : Nat) :
    Inflight τ × InflightEntry τ × Option τ :=
  let (id, nextId) := takeId w.nextId
  let publish := { message with packetId := some id, qos := .atLeastOnce, dup := false }
  let entry := { id, seq := w.nextSeq, ticket, publish, lastSent := now }
  let replaced := w.find? id
  let w := { w with nextId, nextSeq := w.nextSeq + 1, entries := w.without id ++ [entry],
                    permits := w.permits + (if replaced.isSome then 1 else 0) }
  (w, entry, replaced.map InflightEntry.ticket)

def ack (w : Inflight τ) (id : PacketId) : Inflight τ × Option τ :=
  match w.find? id with
  | none => (w, none)
  | some e => ({ w with entries := w.without id, permits := w.permits + 1 }, some e.ticket)

def lookup (w : Inflight τ) (id : PacketId) (seq : Nat) : Option (InflightEntry τ) :=
  (w.find? id).filter fun e => e.seq = seq

def isPending (w : Inflight τ) (id : PacketId) (seq : Nat) : Bool := (w.lookup id seq).isSome

def deadline (w : Inflight τ) (id : PacketId) (seq : Nat) : Option Nat :=
  (w.lookup id seq).map fun e => e.lastSent + w.interval

def resend (w : Inflight τ) (id : PacketId) (seq now : Nat) : Inflight τ × Option Publish :=
  match w.lookup id seq with
  | none => (w, none)
  | some e =>
    let entries := w.entries.map fun f => if f.id = id then { f with lastSent := now } else f
    ({ w with entries }, some { e.publish with dup := true })

def pending (w : Inflight τ) : List (PacketId × Nat) := w.entries.map fun e => (e.id, e.seq)

def clear (w : Inflight τ) : Inflight τ × Nat :=
  ({ w with entries := [], permits := w.permits + w.entries.length }, w.entries.length)

def close (w : Inflight τ) : Inflight τ := { w with closed := true }

end Inflight

end MqttBroker
