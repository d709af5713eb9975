import MqttBroker.Broker.Clock

/-!
What can be asked of a broker from outside: by clients through their links, and by the program
that runs it.
-/

namespace MqttBroker.Broker

/-! Clients -/

def openLink (b : Broker) (address : String) (commonName : Option String) (uuid : String) :
    Broker × PeerId :=
  let stage := Stage.greeting (b.now + b.settings.mqtt.connectTimeout)
  let b := b.putPeer b.nextPeer { link := { address, commonName }, stage, uuid }
  ({ b with nextPeer := b.nextPeer + 1 }, b.nextPeer)

def receive (b : Broker) (peer : PeerId) (p : Packet) : Broker × Except ProtocolError Unit :=
  match b.peers.get? peer with
  | none => (b, .error .connectionClosed)
  | some x =>
    match x.link.clientSend p with
    | .ok link => (b.putPeer peer { x with link }, .ok ())
    | .error e => (b, .error e)

def breakLink (b : Broker) (peer : PeerId) : Broker := b.closeLink peer

def abandonLink (b : Broker) (peer : PeerId) : Broker :=
  { b with peers := b.peers.modify peer fun x => { x with link := x.link.abandon } }

def collect (b : Broker) (peer : PeerId) : Broker × List Packet :=
  match b.peers.get? peer with
  | none => (b, [])
  | some x => (b.putPeer peer { x with link := { x.link with toClient := [] } }, x.link.toClient)

/-! Delivery without service -/

/-- Claims a session for a link that only receives, and starts its delivery. The session is bound
to the link or not. -/
def attach (b : Broker) (address : String) (c : Claim) (unique bound : Bool) :
    Broker × PeerId × Except Failure (ConnectionId × Claimed) :=
  let peer := b.nextPeer
  let b := { b.putPeer peer { link := { address }, stage := .ended } with nextPeer := peer + 1 }
  let (b, conn) := b.newConnection
  let x : Connection := { id := conn, peer }
  match (b.putConnection x).claim c (if bound then some conn else none) unique with
  | (b, .error e) => (b, peer, .error e)
  | (b, .ok claimed) =>
    let b := (b.beginDelivery x claimed.uid).setStage peer (.delivering conn claimed.uid)
    (b, peer, .ok (conn, claimed))

def detach (b : Broker) (conn : ConnectionId) (uid : SessionUid) : Broker × Bool :=
  let b := (b.cancel conn).release uid conn
  (b, b.isClosed uid)

/-! The program -/

def newReport (b : Broker) : Broker × Completion :=
  ({ b with nextReport := b.nextReport + 1 }, .report b.nextReport)

/-- Publishes a message on behalf of the program. Gives the number of subscribers, unless the job
has to wait. -/
def publishFor (b : Broker) (p : Publish) : Broker × Option Nat :=
  let (b, report) := b.newReport
  let (b, n, paused) := b.publish p report
  ({ b with callers := b.callers ++ paused.toList }, if paused.isNone then some n else none)

def pushFor (b : Broker) (uid : SessionUid) (p : Publish) (granted : Option QoS) : Broker × Nat :=
  let (b, report) := b.newReport
  let (b, event) := b.enter p 1 report
  let b := match granted with
    | some qos => b.pushGranted uid event qos
    | none => b.push uid event
  (b, b.events.remaining event)

def kickClient (b : Broker) (s : Session) : Broker × Option Connection :=
  match s.client with
  | none => (b, none)
  | some conn =>
    let b := b.kick conn
    (b, b.connections.get? conn)

def storedOffsets (b : Broker) (id : String) : Option (List Nat) :=
  (b.storage.named? (Session.bucketName id)).map Bucket.offsets

end MqttBroker.Broker
