import MqttBroker.Broker.Routing

/-!
The registry: which session is live under a client id, and which connection it is bound to.
-/

namespace MqttBroker.Broker

def create (b : Broker) (id : String) (clean : Bool) : Broker × SessionUid :=
  let s := Session.new b.nextUid { id, cleanSession := clean } b.settings.mqtt
  (({ b with nextUid := b.nextUid + 1, registry := b.registry.insert id s.uid,
             stats := { b.stats with sessions := b.stats.sessions.increment } }).putSession s,
   s.uid)

def destroy (b : Broker) (uid : SessionUid) : Broker × Except StorageError Unit :=
  match b.session? uid with
  | none => (b, .ok ())
  | some s =>
    let b := if b.registry.get? s.info.id = some uid then
      { b with registry := b.registry.erase s.info.id,
               stats := { b.stats with sessions := b.stats.sessions.decrement } }
    else b
    b.closeSession uid true

structure Claim where
  id : String
  clean : Bool
  will : Option LastWill := none
  principal : Option Principal := none

/-- The session for a claim: the live one if neither side is clean, else a new one in its place.
Says whether the session was there before. -/
def settleClaim (b : Broker) (claim : Claim) :
    Broker × Except StorageError (SessionUid × Bool) :=
  match b.find? claim.id with
  | none =>
    let (b, uid) := b.create claim.id claim.clean
    (b, .ok (uid, false))
  | some s =>
    if !claim.clean && !s.info.cleanSession then (b, .ok (s.uid, true))
    else match b.destroy s.uid with
      | (b, .error e) => (b, .error e)
      | (b, .ok ()) =>
        let (b, uid) := b.create claim.id claim.clean
        (b, .ok (uid, false))

/-- Binds a session to a connection, and gives the connection that was bound before. That one is
ended if there may be only one, otherwise only its delivery ends. -/
def bind (b : Broker) (s : Session) (conn : Option ConnectionId) (unique : Bool) :
    Broker × Option ConnectionId :=
  match conn with
  | none => (b, none)
  | some id =>
    let b := b.putSession { s with client := some id }
    match s.client with
    | none => (b, none)
    | some old => (if unique then b.takeOver old else b.halt old, some old)

structure Claimed where
  uid : SessionUid
  present : Bool
  replaced : Option ConnectionId

def claim (b : Broker) (c : Claim) (conn : Option ConnectionId) (unique : Bool) :
    Broker × Except Failure Claimed :=
  if b.shuttingDown then (b, .error (.protocol .serviceUnavailable))
  else match b.settleClaim c with
    | (b, .error e) => (b, .error (.storage e))
    | (b, .ok (uid, present)) =>
      match b.session? uid with
      | none => (b, .error (.protocol .serviceUnavailable))
      | some s =>
        let info := { s.info with
          cleanSession := c.clean, will := c.will, principal := c.principal }
        let s := { s with info }
        let (b, replaced) := (b.putSession s).bind s conn unique
        match b.persist uid with
        | .error e => (b, .error (.storage e))
        | .ok b => (b, .ok { uid, present, replaced })

/-- A connection of a session is gone. Unless the session is bound to another one, it is unbound,
and destroyed if it is clean. -/
def release (b : Broker) (uid : SessionUid) (conn : ConnectionId) : Broker :=
  match b.session? uid with
  | none => b
  | some s =>
    if s.client ≠ some conn then b
    else
      let b := b.putSession { s with client := none }
      if s.info.cleanSession && !b.shuttingDown then (b.destroy uid).1 else b

/-! Subscriptions on behalf of a principal -/

def checkFilter (b : Broker) (grants : Option Grants) (filter : String) : Except Failure Unit := do
  let _ ← (Topic.validate filter true b.settings.mqtt.maxTopicLevels).mapError .topic
  if grants.any fun g => g.authorizes .subscribe filter then return ()
  else throw (.protocol .notAuthorized)

def hasRoomFor (b : Broker) (s : Session) (filter : String) : Bool :=
  let limit := b.settings.mqtt.maxSubscriptions
  limit = 0 || s.holds filter || s.info.subscriptions.length < limit

def allows (b : Broker) (uid : SessionUid) (grants : Grants) (filter : String) : Bool :=
  (b.checkFilter (some grants) filter).isOk &&
    (b.session? uid).all fun s => b.hasRoomFor s filter

def subscribeAll (uid : SessionUid) (grants : Grants) : List (String × QoS) → Broker →
    Broker × Except Failure (List SubscribeReturn × List (String × QoS))
  | [], b => (b, .ok ([], []))
  | (filter, qos) :: rest, b =>
    if b.allows uid grants filter then
      let qos := qos.lower .atLeastOnce
      match b.subscribe uid filter qos with
      | .error e => (b, .error e)
      | .ok (b, _) =>
        let (b, result) := subscribeAll uid grants rest b
        (b, result.map fun (status, granted) => (.granted qos :: status, (filter, qos) :: granted))
    else
      let (b, result) := subscribeAll uid grants rest b
      (b, result.map fun (status, granted) => (.refused :: status, granted))

def requestSubscriptions (b : Broker) (uid : SessionUid) (grants : Grants)
    (requests : List (String × QoS)) :
    Broker × Except Failure (List SubscribeReturn × List (String × QoS)) :=
  match subscribeAll uid grants requests b with
  | (b, .error e) => (b, .error e)
  | (b, .ok answer) =>
    match b.persist uid with
    | .ok b => (b, .ok answer)
    | .error e => (b, .error (.storage e))

def unsubscribeAll (uid : SessionUid) : List String → Broker → Broker × Except Failure Unit
  | [], b => (b, .ok ())
  | filter :: rest, b =>
    match b.unsubscribe uid filter with
    | .ok (b, _) => unsubscribeAll uid rest b
    | .error e => (b, .error e)

def requestUnsubscriptions (b : Broker) (uid : SessionUid) (filters : List String) :
    Broker × Except Failure Unit :=
  match unsubscribeAll uid filters b with
  | (b, .error e) => (b, .error e)
  | (b, .ok ()) =>
    match b.persist uid with
    | .ok b => (b, .ok ())
    | .error e => (b, .error (.storage e))

/-! Starting over a storage -/

/-- Gives a restored session its stored subscriptions as far as they are still allowed, and counts
the others. -/
def restoreSubscriptions (uid : SessionUid) (grants : Option Grants) :
    Table String QoS → Broker → Except Failure (Broker × Nat)
  | [], b => .ok (b, 0)
  | (filter, qos) :: rest, b =>
    match b.checkFilter grants filter with
    | .ok () => do
      let (b, _) ← b.subscribe uid filter (qos.lower .atLeastOnce)
      restoreSubscriptions uid grants rest b
    | .error _ => do
      let (b, dropped) ← restoreSubscriptions uid grants rest b
      return (b, dropped + 1)

def restoreSession (b : Broker) (info : SessionInfo) : Except Failure Broker := do
  let grants := info.principal.bind b.access.lookup
  let s := Session.new b.nextUid { info with subscriptions := [] } b.settings.mqtt
  let b := ({ b with nextUid := b.nextUid + 1 }).putSession s
  let (b, dropped) ← restoreSubscriptions s.uid grants info.subscriptions b
  let b ← if dropped > 0 then (b.persist s.uid).mapError .storage else pure b
  let b ← if (b.session? s.uid).any Session.isSubscribed then pure b
    else do
      let (storage, h) ← (b.storage.bucket (Session.bucketName info.id)).mapError .storage
      pure { b with storage := storage.closeBucket h true }
  return { b with registry := b.registry.insert info.id s.uid,
                  stats := { b.stats with sessions := b.stats.sessions.increment } }

/-- Restores the sessions of all records; records that hold none, and those of clean sessions, are
deleted. -/
def restoreAll : Table String Bytes → Broker → Except Failure Broker
  | [], b => .ok b
  | (key, data) :: rest, b => do
    match (Codec.Json.load? Codec.Json.toSession? data).filter fun info => !info.cleanSession with
    | some info => restoreAll rest (← b.restoreSession info)
    | none =>
      let storage ← (b.storage.deleteEntry key).mapError .storage
      restoreAll rest { b with storage }

def start (settings : Settings) (storage : Storage.Memory) (now : Nat) (clock : Int64) :
    Except Failure Broker := do
  let b := Broker.new settings storage now clock
  let retain ← (b.retain.load storage).mapError .storage
  let records ← (storage.entriesUnder Session.keyStart).mapError .storage
  restoreAll records { b with retain }

end MqttBroker.Broker
