import MqttBroker.Broker.Session
import MqttBroker.Gauge
import MqttBroker.Link

/-!
Delivery: what a connection does by itself for the client of a session. One activity sends
replies and queued messages, those of the durable queue only while the in-flight window has room.
The other sends unacknowledged messages again, the one sent longest ago first, when the time has
come.
-/

namespace MqttBroker

structure Outgoing where
  uid : SessionUid
  replies : List Packet := []
  holding : Bool := false
  /-- Messages to be sent again, in the order in which they were last sent. -/
  waiting : List (PacketId × Nat) := []
  timer : Option Nat := none

structure Delivery where
  out : Outgoing
  window : Inflight Nat
  queues : Option SessionQueues
  link : Link
  gauge : Gauge
  failed : Bool := false

namespace Delivery

def ofSession (s : Session) (out : Outgoing) (link : Link) (gauge : Gauge) : Delivery :=
  { out, window := s.inflight, queues := s.queues, link, gauge }

def session (d : Delivery) (s : Session) : Session :=
  { s with inflight := d.window, queues := d.queues }

def send (d : Delivery) (p : Packet) : Delivery :=
  match d.link.send p with
  | .ok link => { d with link }
  | .error _ => { d with failed := true }

/-- Drops what is acknowledged from the front of the waiting line, and sets the timer by the new
front. -/
def reconsider (d : Delivery) : Delivery :=
  let waiting := d.out.waiting.dropWhile fun (id, seq) => !d.window.isPending id seq
  let timer := waiting.head?.bind fun (id, seq) => d.window.deadline id seq
  { d with out := { d.out with waiting, timer } }

def await (d : Delivery) (id : PacketId) (seq : Nat) : Delivery :=
  if d.failed then d
  else reconsider { d with out := { d.out with waiting := d.out.waiting ++ [(id, seq)] } }

def resend (d : Delivery) (id : PacketId) (seq now : Nat) : Delivery :=
  match d.window.resend id seq now with
  | (_, none) => d
  | (window, some p) => (({ d with window }).send (.publish p)).await id seq

def begin (d : Delivery) (now : Nat) : Delivery :=
  d.window.pending.foldl (fun d (id, seq) => if d.failed then d else d.resend id seq now) d

def retry (d : Delivery) (now : Nat) : Option Delivery :=
  match d.out.timer, d.out.waiting with
  | some due, (id, seq) :: rest =>
    if due ≤ now then
      some (({ d with out := { d.out with waiting := rest } }).resend id seq now).reconsider
    else none
  | _, _ => none

def plain (p : Publish) : Publish :=
  { p with qos := .atMostOnce, dup := false, packetId := none }

/-- A message taken from the durable queue, which is now `durable`, enters the window on the permit
held. An entry that it replaces counts as acknowledged. -/
def takeIn (d : Delivery) (q : SessionQueues) (durable : StoredQueue EventId) (next : StoredMessage)
    (now : Nat) : Delivery × InflightEntry Nat :=
  let (window, entry, replaced) := d.window.insert next.offset next.message now
  let durable := match replaced with
    | some offset => durable.acknowledge offset
    | none => durable
  let gauge := if replaced.isNone then d.gauge.increment else d.gauge
  ({ d with window, gauge, queues := some { q with durable },
            out := { d.out with holding := false } }, entry)

def sendDurable (d : Delivery) (q : SessionQueues) (now : Nat) : Option Delivery :=
  match q.durable.pop with
  | (_, none) => none
  | (durable, some next) =>
    let (d, entry) := d.takeIn q durable next now
    some ((d.send (.publish entry.publish)).await entry.id entry.seq)

def takePermit (d : Delivery) : Option Delivery :=
  d.window.acquire.map fun window => { d with window, out := { d.out with holding := true } }

def dropPermit (d : Delivery) : Delivery :=
  if d.out.holding then
    { d with window := d.window.release, out := { d.out with holding := false } }
  else d

def forward (d : Delivery) (now : Nat) : Option Delivery :=
  match d.out.replies, d.queues with
  | p :: rest, _ => some (({ d with out := { d.out with replies := rest } }).send p)
  | [], none => if d.out.holding then some d.dropPermit else none
  | [], some q =>
    match q.temporary.pop with
    | (temporary, some p) =>
      some (({ d with queues := some { q with temporary } }).send (.publish (plain p)))
    | (_, none) => if d.out.holding then d.sendDurable q now else d.takePermit

def next (d : Delivery) (now : Nat) : Option Delivery :=
  if d.failed then none else d.forward now <|> d.retry now

/-- No more steps than this can be made at one instant. -/
def steps (d : Delivery) : Nat :=
  let queued := match d.queues with
    | none => 0
    | some q => q.temporary.messages.length + 4 * q.durable.queue.outbox.length
  d.out.replies.length + queued + d.out.waiting.length + 4

def run : Nat → Delivery → (now : Nat) → Delivery × Bool
  | 0, d, _ => (d, false)
  | fuel + 1, d, now =>
    match d.next now with
    | none => (d, false)
    | some d => ((run fuel d now).1, true)

end Delivery

end MqttBroker
