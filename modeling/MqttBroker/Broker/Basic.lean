import MqttBroker.Broker.Delivery
import MqttBroker.Retain
import MqttBroker.Stats

/-!
The state of a broker: its sessions and connections, the messages under way between them, and the
storage that outlives it.
-/

namespace MqttBroker

abbrev PeerId := Nat

inductive Completion
  | silent
  | acknowledge (conn : ConnectionId) (id : PacketId)
  | report (number : Nat)

structure Connection where
  id : ConnectionId
  peer : PeerId
  cancelled : Bool := false
  /-- Only its delivery has been told to end. -/
  halted : Bool := false
  kicked : Bool := false
  /-- It ends because a new connection resumed its session. -/
  resumed : Bool := false
  outgoing : Option Outgoing := none
  stopped : Bool := false

inductive Job
  | route (event : EventId) (targets : List SessionUid)
  /-- Retained messages for one session, and the subscriptions whose messages come after them. -/
  | replay (uid : SessionUid) (messages : List Publish) (qos : QoS)
      (granted : List (String × QoS))

/-- A job that waits for a session's durable queue to accept a message. -/
structure Paused where
  uid : SessionUid
  event : EventId
  rest : Job

structure Served where
  conn : ConnectionId
  uid : SessionUid
  grants : Grants
  will : Option LastWill
  keepalive : Option Nat

inductive Stage
  | greeting (deadline : Nat)
  /-- Accepted, and waiting for the delivery of an earlier connection to stop. -/
  | accepted (client : Served) (present : Bool) (earlier : ConnectionId) (deadline : Nat)
  | serving (client : Served) (deadline : Option Nat)
  | busy (client : Served) (job : Paused)
  | leaving (client : Served) (result : Except Failure Unit) (job : Paused)
  /-- Only delivering; packets from the client are not received. -/
  | delivering (conn : ConnectionId) (uid : SessionUid)
  | ended

def Stage.deadline : Stage → Option Nat
  | .greeting deadline => some deadline
  | .accepted _ _ _ deadline => some deadline
  | .serving _ deadline => deadline
  | _ => none

structure Peer where
  link : Link
  stage : Stage
  /-- The broker that opened the link has been shut down. -/
  orphaned : Bool := false
  /-- What is drawn for a client that leaves its id to the broker. -/
  uuid : String := ""

structure Broker where
  settings : Settings
  access : AccessControl
  storage : Storage.Memory
  exchange : Exchange
  retain : RetainStore
  stats : Stats := {}
  /-- All sessions that have been, registered or not. -/
  sessions : Table SessionUid Session := []
  registry : Table String SessionUid := []
  connections : Table ConnectionId Connection := []
  served : List ConnectionId := []
  peers : Table PeerId Peer := []
  events : Ledger Completion := {}
  /-- Jobs of callers that are no clients. -/
  callers : List Paused := []
  nextUid : Nat := 1
  nextConnection : Nat := 1
  nextPeer : Nat := 0
  nextReport : Nat := 0
  shuttingDown : Bool := false
  now : Nat
  clock : Int64
  reported : List Nat := []
  endings : List (PeerId × Except Failure Unit) := []

namespace Broker

def new (settings : Settings) (storage : Storage.Memory) (now : Nat) (clock : Int64) : Broker :=
  let access := settings.access
  { settings, access, storage, now, clock
    exchange := .new access.namespaces
    retain := { namespaces := access.namespaces } }

def namespaces (b : Broker) : Namespaces := b.exchange.namespaces

def session? (b : Broker) (uid : SessionUid) : Option Session := b.sessions.get? uid

def find? (b : Broker) (id : String) : Option Session := (b.registry.get? id).bind b.session?

def isClosed (b : Broker) (uid : SessionUid) : Bool := (b.session? uid).all Session.closed

def putSession (b : Broker) (s : Session) : Broker :=
  { b with sessions := b.sessions.insert s.uid s }

def putConnection (b : Broker) (c : Connection) : Broker :=
  { b with connections := b.connections.insert c.id c }

def putPeer (b : Broker) (id : PeerId) (p : Peer) : Broker :=
  { b with peers := b.peers.insert id p }

/-! Connections -/

def cancel (b : Broker) (id : ConnectionId) : Broker :=
  { b with connections := b.connections.modify id fun c => { c with cancelled := true } }

def halt (b : Broker) (id : ConnectionId) : Broker :=
  { b with connections := b.connections.modify id fun c => { c with halted := true } }

def kick (b : Broker) (id : ConnectionId) : Broker :=
  { b with connections := b.connections.modify id fun c =>
      { c with kicked := true, cancelled := true } }

def takeOver (b : Broker) (id : ConnectionId) : Broker :=
  { b with connections := b.connections.modify id fun c =>
      { c with resumed := true, kicked := true, cancelled := true } }

/-- Lets a delivery send a packet; one that has ended sends nothing. -/
def reply (b : Broker) (id : ConnectionId) (p : Packet) : Broker :=
  { b with connections := b.connections.modify id fun c =>
      { c with outgoing := c.outgoing.map fun o => { o with replies := o.replies ++ [p] } } }

/-! Events -/

def complete (b : Broker) : Completion → Broker
  | .silent => b
  | .acknowledge conn id => b.reply conn (.publishAck id)
  | .report number => { b with reported := b.reported ++ [number] }

def enter (b : Broker) (message : Publish) (recipients : Nat) (completion : Completion) :
    Broker × EventId :=
  let (events, id, due) := b.events.enter message recipients completion
  (due.foldl complete { b with events }, id)

def doneAll (b : Broker) (ids : List EventId) : Broker :=
  let (events, due) := b.events.doneAll ids
  due.foldl complete { b with events }

def done (b : Broker) (id : EventId) : Broker := b.doneAll [id]

/-! What is reported -/

def figures (b : Broker) : List (String × Int) :=
  ({ b.stats with retained := b.retain.gauge } : Stats).report

def describe (b : Broker) : String :=
  "SessionManager \x7b sessions: " ++ Text.decimal b.registry.length ++ ", connections: " ++
    Text.decimal b.served.length ++ " \x7d"

def describeConnection (b : Broker) (id : ConnectionId) : String :=
  let address := ((b.connections.get? id).bind fun c => b.peers.get? c.peer).map fun p =>
    p.link.address
  "ConnHandle(" ++ Text.decimal id ++ ", " ++ address.getD "" ++ ")"

end Broker

end MqttBroker
