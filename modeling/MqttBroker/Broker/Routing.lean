import MqttBroker.Broker.Subscriptions

/-!
Routing: how a message gets into the queues of the sessions that it is for.
-/

namespace MqttBroker.Broker

def pushGranted (b : Broker) (uid : SessionUid) (event : EventId) (qos : QoS) : Broker :=
  match b.session? uid, b.events.event? event with
  | some s, some e =>
    match s.queues, e.message.qos.lower qos with
    | none, _ => b.done event
    | some q, .atMostOnce =>
      let (temporary, outcome) := q.temporary.push e.message
      let dropped := if outcome = .overran then b.stats.qos0Dropped.increment
        else b.stats.qos0Dropped
      (({ b with stats := { b.stats with qos0Dropped := dropped } }).putSession
        { s with queues := some { q with temporary } }).done event
    | some q, _ =>
      match q.durable.push event e.message with
      | none => b.done event
      | some durable => b.putSession { s with queues := some { q with durable } }
  | _, _ => b

def push (b : Broker) (uid : SessionUid) (event : EventId) : Broker :=
  match b.session? uid, b.events.event? event with
  | some s, some e =>
    match s.granted b.namespaces e.message.topic with
    | some qos => b.pushGranted uid event qos
    | none => b.done event
  | _, _ => b

def awaits (b : Broker) (uid : SessionUid) (event : EventId) : Bool :=
  match (b.session? uid).bind Session.queues with
  | some q => q.durable.queue.waiting.contains event
  | none => false

def route (event : EventId) : List SessionUid → Broker → Broker × Option Paused
  | [], b => (b, none)
  | uid :: rest, b =>
    let b := b.push uid event
    if b.awaits uid event then (b, some ⟨uid, event, .route event rest⟩) else route event rest b

def replayMessages (uid : SessionUid) (qos : QoS) (granted : List (String × QoS)) :
    List Publish → Broker → Broker × Option Paused
  | [], b => (b, none)
  | p :: rest, b =>
    let (b, event) := b.enter { p with retain := true } 1 .silent
    let b := b.pushGranted uid event qos
    if b.awaits uid event then (b, some ⟨uid, event, .replay uid rest qos granted⟩)
    else replayMessages uid qos granted rest b

def replay (uid : SessionUid) : List (String × QoS) → Broker → Broker × Option Paused
  | [], b => (b, none)
  | (filter, qos) :: rest, b =>
    match replayMessages uid qos rest (b.retain.select filter) b with
    | (b, none) => replay uid rest b
    | paused => paused

def resume : Job → Broker → Broker × Option Paused
  | .route event targets, b => route event targets b
  | .replay uid messages qos granted, b =>
    match replayMessages uid qos granted messages b with
    | (b, none) => replay uid granted b
    | paused => paused

def keep (b : Broker) (p : Publish) : Broker :=
  if p.retain then
    match b.retain.set b.storage p with
    | (retain, .ok storage) => { b with retain, storage }
    | (retain, .error _) => { b with retain }
  else b

/-- Keeps a message if it is to be retained, and enters it for its subscribers. Gives its event
and the sessions that it is for. -/
def announce (b : Broker) (p : Publish) (completion : Completion) :
    Broker × EventId × List SessionUid :=
  let b := b.keep p
  let message := { p with retain := false, dup := false, packetId := none }
  let targets := b.exchange.recipients message.topic
  let b := { b with stats := b.stats.countRoute targets.length }
  let (b, event) := b.enter message targets.length completion
  (b, event, targets)

def publish (b : Broker) (p : Publish) (completion : Completion) :
    Broker × Nat × Option Paused :=
  let (b, event, targets) := b.announce p completion
  let (b, paused) := route event targets b
  (b, targets.length, paused)

end MqttBroker.Broker
