import MqttBroker.Broker.Basic

/-!
The subscriptions of a session and all that hangs on them: its queues, its bindings in the
exchange and its record in storage.
-/

namespace MqttBroker.Broker

def openQueues (b : Broker) (s : Session) : Except StorageError (Broker × Session) := do
  let mqtt := b.settings.mqtt
  let (storage, durable) ← StoredQueue.openOver b.storage (Session.bucketName s.info.id)
    (.ofSettings mqtt) s.inflight.capacity b.now
  let temporary := TemporaryQueue.new mqtt.maxQos0Queue mqtt.qos0Overrun
  return ({ b with storage }, { s with queues := some { temporary, durable } })

/-- Closes the queues of a session. With `cleanup` what is in them and in flight is dropped. -/
def closeQueues (b : Broker) (s : Session) (cleanup : Bool) : Broker × Session :=
  let b := match s.queues with
    | none => b
    | some q =>
      let w := q.durable.close b.storage b.clock cleanup
      ({ b with storage := w.memory }).doneAll (w.done ++ w.refused)
  let s := { s with queues := none }
  if cleanup then
    let (inflight, n) := s.inflight.clear
    ({ b with stats := { b.stats with inflights := b.stats.inflights.subtract n } },
     { s with inflight })
  else (b, s)

/-- Makes sure that a session has queues: it has them as soon as it is subscribed. -/
def provide (b : Broker) (s : Session) : Except Failure (Broker × Session) :=
  if s.isSubscribed then .ok (b, s) else (b.openQueues s).mapError .storage

def enterSubscription (b : Broker) (s : Session) (filter : String) (topic : Topic) (qos : QoS) :
    Except Failure (Broker × Bool) :=
  let info := { s.info with subscriptions := s.info.subscriptions.insert filter qos }
  if s.holds filter then .ok (b.putSession { s with info }, false)
  else match b.exchange.bind filter s.uid with
    | .error e => .error (.topic e)
    | .ok (exchange, _) =>
      let subscriptions := b.stats.subscriptions.increment
      let matcher := (s.matcher.insert topic filter).1
      .ok (({ b with exchange, stats := { b.stats with subscriptions } }).putSession
        { s with info, matcher }, true)

def subscribe (b : Broker) (uid : SessionUid) (filter : String) (qos : QoS) :
    Except Failure (Broker × Bool) :=
  match Topic.parse filter, b.session? uid with
  | .error e, _ => .error (.topic e)
  | .ok _, none => .error (.protocol .serviceUnavailable)
  | .ok topic, some s =>
    if s.closed then .error (.protocol .serviceUnavailable)
    else match b.provide s with
      | .error e => .error e
      | .ok (b, s) => b.enterSubscription s filter topic qos

def dropSubscription (b : Broker) (s : Session) (filter : String) : Except Failure Broker :=
  let matcher := match Topic.parse filter with
    | .ok topic => (s.matcher.remove topic filter).1
    | .error _ => s.matcher
  let info := { s.info with subscriptions := s.info.subscriptions.erase filter }
  match b.exchange.unbind filter s.uid with
  | .error e => .error (.topic e)
  | .ok (exchange, _) =>
    let subscriptions := b.stats.subscriptions.decrement
    let b := { b with exchange, stats := { b.stats with subscriptions } }
    let s := { s with matcher, info }
    let (b, s) := if s.isSubscribed then (b, s) else b.closeQueues s true
    .ok (b.putSession s)

def unsubscribe (b : Broker) (uid : SessionUid) (filter : String) :
    Except Failure (Broker × Bool) :=
  match b.session? uid with
  | none => .ok (b, false)
  | some s =>
    if s.holds filter then (b.dropSubscription s filter).map fun b => (b, true)
    else .ok (b, false)

def persist (b : Broker) (uid : SessionUid) : Except StorageError Broker := do
  match b.session? uid with
  | none => return b
  | some s =>
    let key := Session.key s.info.id
    let storage ←
      if s.info.cleanSession then b.storage.deleteEntry key
      else b.storage.setEntry key (Codec.Json.store (Codec.Json.ofSession s.info))
    return { b with storage }

def isolate (b : Broker) (s : Session) : Broker :=
  let (exchange, n) := b.exchange.unbindAll s.uid
  let b := { b with exchange, stats :=
    { b.stats with subscriptions := b.stats.subscriptions.subtract n } }
  match s.client with
  | some conn => b.kick conn
  | none => b

/-- Closes the queues of a session that receives nothing more. With `cleanup` what is stored of it is
deleted. -/
def retire (b : Broker) (s : Session) (cleanup : Bool) : Broker × Except StorageError Unit :=
  let (b, s) := b.closeQueues s cleanup
  let b := b.putSession s
  if cleanup then
    match b.storage.deleteEntry (Session.key s.info.id) with
    | .ok storage => ({ b with storage }, .ok ())
    | .error e => (b, .error e)
  else (b, .ok ())

def closeSession (b : Broker) (uid : SessionUid) (cleanup : Bool) :
    Broker × Except StorageError Unit :=
  match b.session? uid with
  | none => (b, .ok ())
  | some s =>
    if s.closed then (b, .ok ())
    else (b.isolate s).retire
      { s with closed := true, client := none, inflight := s.inflight.close } cleanup

end MqttBroker.Broker
