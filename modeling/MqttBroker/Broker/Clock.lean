import MqttBroker.Broker.Service

/-!
The broker in time. At every instant all that can be done is done, before time passes to the next
instant at which something is due.
-/

namespace MqttBroker.Broker

/-! One instant -/

def withQueue (b : Broker) (uid : SessionUid)
    (act : StoredQueue EventId → Storage.Memory → QueueWork EventId) : Broker :=
  match b.session? uid with
  | none => b
  | some s =>
    match s.queues with
    | none => b
    | some q =>
      let w := act q.durable b.storage
      let s := { s with queues := some { q with durable := w.queue } }
      (({ b with storage := w.memory }).putSession s).doneAll (w.done ++ w.refused)

def settleQueues (b : Broker) : Broker :=
  b.sessions.keys.foldl (fun b uid => b.withQueue uid fun q m => q.settle m b.now b.clock) b

def settleDeliveries (b : Broker) : Broker × Bool :=
  b.connections.keys.foldl (fun (b, moved) id =>
    match b.connections.get? id with
    | some c => let (b, m) := b.deliver c; (b, moved || m)
    | none => (b, moved)) (b, false)

def servePeers (b : Broker) : Broker × Bool :=
  b.peers.keys.foldl (fun (b, moved) id =>
    match (b.peers.get? id).bind (b.serve id false) with
    | some b => (b, true)
    | none => (b, moved)) (b, false)

def resumeCallers (b : Broker) : Broker × Bool :=
  let ready := b.callers.filter fun job => !b.awaits job.uid job.event
  let b := { b with callers := b.callers.filter fun job => b.awaits job.uid job.event }
  (ready.foldl (fun b job =>
    let (b, paused) := resume job.rest b
    { b with callers := b.callers ++ paused.toList }) b, !ready.isEmpty)

def round (b : Broker) : Broker × Bool :=
  let (b, delivered) := b.settleQueues.settleDeliveries
  let (b, served) := b.servePeers
  let (b, resumed) := b.resumeCallers
  (b, delivered || served || resumed)

def rounds : Nat → Broker → Broker
  | 0, b => b
  | fuel + 1, b =>
    match b.round with
    | (b, true) => rounds fuel b
    | (b, false) => b

/-- A bound on the rounds in one instant: each takes on a packet, a message or a stage of some
link. -/
def work (b : Broker) : Nat :=
  let total (xs : List Nat) : Nat := xs.foldl (· + ·) 0
  let packets := total (b.peers.values.map fun x => x.link.toBroker.length + 4)
  let records := total (b.storage.buckets.values.map fun bucket => bucket.records.length)
  let queued := total (b.sessions.values.map fun s => match s.queues with
    | none => 0
    | some q => q.temporary.messages.length + q.durable.queue.inbox.length)
  16 + 4 * (packets + records + queued) +
    4 * b.retain.messages.length * (b.callers.length + packets)

def settle (b : Broker) : Broker := rounds b.work b

/-! Time passes -/

def queueTimers (b : Broker) : List Nat :=
  b.sessions.values.filterMap fun s => s.queues.bind fun q => q.durable.queue.nextTimer

def deliveryTimers (b : Broker) : List Nat :=
  b.connections.values.filterMap fun c => c.outgoing.bind Outgoing.timer

def linkTimers (b : Broker) : List Nat :=
  b.peers.values.filterMap fun x => x.stage.deadline

def nextTimer (b : Broker) : Option Nat :=
  (b.queueTimers ++ b.deliveryTimers ++ b.linkTimers).min?

def tick (b : Broker) : Broker :=
  b.sessions.keys.foldl (fun b uid => b.withQueue uid fun q m => q.tick m b.now b.clock) b

/-- Lets time pass from `now` to `target`, from one instant at which something is due to the
next. -/
def passTo (now target : Nat) (b : Broker) : Broker :=
  match b.nextTimer with
  | none => { b with now := target }
  | some due =>
    let next := max due (now + 1)
    if target < next then { b with now := target }
    else passTo next target ({ b with now := next }.tick.settle)
termination_by target - now

def advance (b : Broker) (millis : Nat) : Broker :=
  let b := b.settle
  passTo b.now (b.now + millis) b

/-! Shutting down and starting again -/

def drain : Nat → Broker → Broker
  | 0, b => b
  | n + 1, b => if b.served.isEmpty then b else drain n (b.advance 10)

def closeSessions (b : Broker) : Broker :=
  let uids := b.registry.values
  uids.foldl (fun b uid =>
    let clean := (b.session? uid).any fun s => s.info.cleanSession
    let b := (b.closeSession uid clean).1
    { b with stats := { b.stats with sessions := b.stats.sessions.decrement } })
    { b with registry := [] }

/-- Shuts the broker down: ends the connections, for which it waits at most five seconds, then
closes the sessions and the storage. -/
def shutDown (b : Broker) : Broker :=
  if b.shuttingDown then b
  else
    let b := b.served.foldl cancel { b with shuttingDown := true }
    let b := (drain 500 b).closeSessions
    ({ b with storage := b.storage.close }).settle

def lieDown (b : Broker) : Broker :=
  let b := b.shutDown
  { b with storage := b.storage.reopen }

/-- Shuts the broker down and starts a new one with other settings over the same storage. Links
of the old one that are still open are taken along, to be turned away. If the new one does not
start, the old one stays. -/
def restart (b : Broker) (settings : Settings) : Broker × Except Failure Unit :=
  let b := b.lieDown
  match start settings b.storage b.now b.clock with
  | .error e => (b, .error e)
  | .ok fresh =>
    let peers := b.peers.map fun (id, x) => (id, { x with orphaned := true })
    ({ fresh with peers, nextPeer := b.nextPeer, nextReport := b.nextReport,
                  reported := b.reported, endings := b.endings }, .ok ())

end MqttBroker.Broker
