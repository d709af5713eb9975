import MqttBroker.Broker.Registry

/-!
Requests of clients: how the broker answers CONNECT, and every other packet of a client that it
serves.
-/

namespace MqttBroker.Broker

/-! CONNECT -/

def protocolLevels : List Nat := [3, 4]

def generatedStart : String := "edgemq-"

def clientId (b : Broker) (c : Connect) (uuid : String) : Except Failure String :=
  if c.clientId = "" then
    if c.cleanSession then .ok (generatedStart ++ uuid)
    else .error (.protocol .identifierRejected)
  else if c.clientId.utf8ByteSize > b.settings.mqtt.maxClientIdLength then
    .error (.protocol .identifierRejected)
  else .ok c.clientId

def authenticate (b : Broker) (c : Connect) (commonName : Option String) :
    Except Failure (Grants × Principal) :=
  match c.username, commonName with
  | some name, _ =>
    match b.access.authenticateAccount name (c.password.getD []) with
    | some grants => .ok (grants, .account name)
    | none => .error (.protocol .badUserNameOrPassword)
  | none, some name =>
    match b.access.authenticateCertificate name with
    | some grants => .ok (grants, .certificate name)
    | none => .error (.protocol .notAuthorized)
  | none, none =>
    match b.access.anonymous with
    | some grants => .ok (grants, .anonymous)
    | none => .error (.protocol .notAuthorized)

def checkWill (b : Broker) (grants : Grants) (w : LastWill) : Except Failure Unit := do
  if !w.qos.isSupported then throw (.protocol (.qosNotSupported w.qos))
  let _ ← (Topic.validate w.topic false b.settings.mqtt.maxTopicLevels).mapError
    fun e => .protocol (.topic e)
  if w.message.length > b.settings.mqtt.maxPayloadSize then
    throw (.protocol (.payloadTooLarge w.message.length))
  if !grants.authorizes .publish w.topic then throw (.protocol .notAuthorized)

def checkConnect (b : Broker) (c : Connect) (commonName : Option String) (uuid : String) :
    Except Failure (Claim × Grants) := do
  if !protocolLevels.contains c.protocolLevel then
    throw (.protocol (.unsupportedVersion c.protocolLevel))
  let id ← b.clientId c uuid
  let (grants, principal) ← b.authenticate c commonName
  match c.lastWill with
  | some w => b.checkWill grants w
  | none => pure ()
  return ({ id, clean := c.cleanSession, will := c.lastWill, principal := some principal }, grants)

/-! Packets of a client that is served -/

inductive Outcome
  | done
  | failed (cause : Failure)
  | paused (job : Paused)

def Outcome.ofJob : Option Paused → Outcome
  | none => .done
  | some job => .paused job

def sendTo (b : Broker) (peer : PeerId) (p : Packet) : Broker × Except Failure Unit :=
  match b.peers.get? peer with
  | none => (b, .error (.protocol .connectionClosed))
  | some x =>
    match x.link.send p with
    | .ok link => (b.putPeer peer { x with link }, .ok ())
    | .error e => (b, .error (.protocol e))

def completionFor (conn : ConnectionId) (p : Publish) : Except Failure Completion :=
  match p.qos, p.packetId with
  | .atMostOnce, _ => .ok .silent
  | .atLeastOnce, some id => .ok (.acknowledge conn id)
  | .atLeastOnce, none => .error (.protocol (.invalidProtocol "QoS1 PUBLISH without packet id"))
  | .exactlyOnce, _ => .error (.protocol (.qosNotSupported .exactlyOnce))

def checkPublish (b : Broker) (grants : Grants) (p : Publish) : Except Failure Unit := do
  let _ ← (Topic.validate p.topic false b.settings.mqtt.maxTopicLevels).mapError .topic
  if p.payload.length > b.settings.mqtt.maxPayloadSize then
    throw (.protocol (.payloadTooLarge p.payload.length))
  if !grants.authorizes .publish p.topic then throw (.protocol .notAuthorized)

def onPublish (b : Broker) (c : Served) (p : Publish) : Broker × Outcome :=
  match completionFor c.conn p with
  | .error e => (b, .failed e)
  | .ok completion =>
    match b.checkPublish c.grants p with
    | .error e => (b, .failed e)
    | .ok () =>
      let (b, _, paused) := b.publish p completion
      (b, .ofJob paused)

def onSubscribe (b : Broker) (peer : PeerId) (c : Served) (id : PacketId)
    (requests : List (String × QoS)) : Broker × Outcome :=
  match b.requestSubscriptions c.uid c.grants requests with
  | (b, .error e) => (b, .failed e)
  | (b, .ok (status, granted)) =>
    match b.sendTo peer (.subscribeAck id status) with
    | (b, .error e) => (b, .failed e)
    | (b, .ok ()) =>
      let (b, paused) := replay c.uid granted b
      (b, .ofJob paused)

def onUnsubscribe (b : Broker) (peer : PeerId) (c : Served) (id : PacketId)
    (filters : List String) : Broker × Outcome :=
  match b.requestUnsubscriptions c.uid filters with
  | (b, .error e) => (b, .failed e)
  | (b, .ok ()) =>
    match b.sendTo peer (.unsubscribeAck id) with
    | (b, .error e) => (b, .failed e)
    | (b, .ok ()) => (b, .done)

def acknowledge (b : Broker) (uid : SessionUid) (id : PacketId) : Broker × Bool :=
  match (b.session? uid).bind fun s => s.acknowledge id with
  | none => (b, false)
  | some s =>
    (({ b with stats := { b.stats with inflights := b.stats.inflights.decrement } }).putSession s,
     true)

def process (b : Broker) (peer : PeerId) (c : Served) : Packet → Broker × Outcome
  | .publish p => b.onPublish c p
  | .publishAck id => ((b.acknowledge c.uid id).1, .done)
  | .subscribe id requests => b.onSubscribe peer c id requests
  | .unsubscribe id filters => b.onUnsubscribe peer c id filters
  | .pingRequest =>
    match b.sendTo peer .pingResponse with
    | (b, .ok ()) => (b, .done)
    | (b, .error e) => (b, .failed e)
  | p => (b, .failed (.protocol (.unexpectedPacket p.kind)))

end MqttBroker.Broker
