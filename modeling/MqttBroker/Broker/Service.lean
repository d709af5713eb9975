import MqttBroker.Broker.Requests

/-!
Service: how the broker goes through the life of a link, from the greeting of its client to the
clean-up after it, one step at a time.
-/

namespace MqttBroker.Broker

/-! Deliveries -/

def beginDelivery (b : Broker) (c : Connection) (uid : SessionUid) : Broker :=
  match b.session? uid, b.peers.get? c.peer with
  | some s, some x =>
    let d := (Delivery.ofSession s { uid } x.link b.stats.inflights).begin b.now
    let b := (b.putSession (d.session s)).putPeer c.peer { x with link := d.link }
    b.putConnection { c with outgoing := some d.out, cancelled := c.cancelled || d.failed }
  | _, _ => b

def endDelivery (b : Broker) (c : Connection) (out : Outgoing) : Broker :=
  let b := match b.session? out.uid with
    | some s => if out.holding then b.putSession { s with inflight := s.inflight.release } else b
    | none => b
  b.putConnection { c with outgoing := none, stopped := true }

def deliver (b : Broker) (c : Connection) : Broker × Bool :=
  match c.outgoing, c.outgoing.bind fun out => b.session? out.uid, b.peers.get? c.peer with
  | some out, some s, some x =>
    if c.cancelled || c.halted then (b.endDelivery c out, true)
    else
      let d := Delivery.ofSession s out x.link b.stats.inflights
      let (d, moved) := Delivery.run d.steps d b.now
      let b := { b with stats := { b.stats with inflights := d.gauge } }
      let b := b.putSession (d.session s)
      let b := b.putPeer c.peer { x with link := d.link }
      (b.putConnection { c with outgoing := some d.out, cancelled := c.cancelled || d.failed },
       moved || d.failed)
  | _, _, _ => (b, false)

/-! Links -/

def setStage (b : Broker) (peer : PeerId) (stage : Stage) : Broker :=
  { b with peers := b.peers.modify peer fun x => { x with stage } }

def closeLink (b : Broker) (peer : PeerId) : Broker :=
  { b with peers := b.peers.modify peer fun x => { x with link := x.link.close } }

def conclude (b : Broker) (peer : PeerId) (result : Except Failure Unit) : Broker :=
  { b.setStage peer .ended with endings := b.endings ++ [(peer, result)] }

def refuse (b : Broker) (peer : PeerId) (e : Failure) : Broker :=
  let code := match e with
    | .protocol cause => cause.connectReturn?
    | _ => none
  let b := match code with
    | some code => (b.sendTo peer (.connectAck false code)).1
    | none => b
  (b.closeLink peer).conclude peer (.error e)

def silenceLimit (b : Broker) (c : Served) : Option Nat := c.keepalive.map (b.now + ·)

def keepServing (b : Broker) (peer : PeerId) (c : Served) : Broker :=
  b.setStage peer (.serving c (b.silenceLimit c))

def forget (b : Broker) (peer : PeerId) (c : Served) (result : Except Failure Unit) : Broker :=
  (b.release c.uid c.conn).conclude peer result

def dropWill (b : Broker) (c : Served) : Broker :=
  match b.session? c.uid with
  | none => b
  | some s =>
    if s.client = some c.conn then
      let b := b.putSession { s with info := { s.info with will := none } }
      match b.persist c.uid with
      | .ok b => b
      | .error _ => b
    else b

/-- Publishes the last will of a client whose connection was lost, unless another connection has
resumed its session. -/
def publishWill (b : Broker) (c : Served) : Broker × Option Paused :=
  let resumed := (b.connections.get? c.conn).any Connection.resumed
  match c.will with
  | some w =>
    if resumed then (b, none)
    else
      let (b, _, paused) := b.publish (w.toPublish b.clock) .silent
      (b, paused)
  | none => (b, none)

def hangUp (b : Broker) (peer : PeerId) (c : Served) : Broker :=
  let b := b.cancel c.conn
  let b := match b.connections.get? c.conn with
    | some x =>
      match x.outgoing with
      | some out => b.endDelivery x out
      | none => b.putConnection { x with stopped := true }
    | none => b
  b.closeLink peer

def dismiss (b : Broker) (c : Served) : Broker :=
  if b.served.contains c.conn then
    { b with served := b.served.erase c.conn,
             stats := { b.stats with connections := b.stats.connections.decrement } }
  else b

def leave (b : Broker) (peer : PeerId) (c : Served) (result : Except Failure Unit)
    (graceful : Bool) : Broker :=
  let b := (b.hangUp peer c).dismiss c
  if b.shuttingDown then b.conclude peer result
  else if graceful then (b.dropWill c).forget peer c result
  else match b.publishWill c with
    | (b, none) => b.forget peer c result
    | (b, some job) => b.setStage peer (.leaving c result job)

def welcome (b : Broker) (peer : PeerId) (c : Served) (present : Bool) : Broker :=
  match b.sendTo peer (.connectAck present .accepted) with
  | (b, .error e) => b.leave peer c (.error e) false
  | (b, .ok ()) =>
    match b.connections.get? c.conn with
    | some x => (b.beginDelivery x c.uid).keepServing peer c
    | none => b

def newConnection (b : Broker) : Broker × ConnectionId :=
  ({ b with nextConnection := b.nextConnection + 1 }, b.nextConnection)

def accept (b : Broker) (peer : PeerId) (x : Peer) (p : Connect) : Broker :=
  let (b, conn) := if x.orphaned then (b, 0) else b.newConnection
  match b.checkConnect p x.link.commonName x.uuid with
  | .error e => b.refuse peer e
  | .ok (claim, grants) =>
    if x.orphaned then b.refuse peer (.protocol .serviceUnavailable)
    else
      match (b.putConnection { id := conn, peer }).claim claim (some conn) true with
      | (b, .error e) => b.refuse peer e
      | (b, .ok claimed) =>
        let b := { b with served := b.served ++ [conn],
                          stats := { b.stats with connections := b.stats.connections.increment } }
        let c : Served := { conn, uid := claimed.uid, grants, will := p.lastWill,
                            keepalive := b.settings.mqtt.keepaliveTimeout p.keepAlive }
        match claimed.replaced with
        | some old => b.setStage peer
            (.accepted c claimed.present old (b.now + b.settings.mqtt.connectTimeout))
        | none => b.welcome peer c claimed.present

def onPacket (b : Broker) (peer : PeerId) (c : Served) (p : Packet) : Broker :=
  match p with
  | .disconnect => b.leave peer c (.ok ()) true
  | _ =>
    match b.process peer c p with
    | (b, .done) => b.keepServing peer c
    | (b, .failed e) => b.leave peer c (.error e) false
    | (b, .paused job) => b.setStage peer (.busy c job)

def isDue (b : Broker) (deadline : Option Nat) : Bool := deadline.any (· ≤ b.now)

def isCancelled (b : Broker) (conn : ConnectionId) : Bool :=
  (b.connections.get? conn).any Connection.cancelled

def hasStopped (b : Broker) (conn : ConnectionId) : Bool :=
  (b.connections.get? conn).all Connection.stopped

/-- One step with a link, if there is one to take. A client whose connection has been told to end
may still be heard, `late`: it is open which of the two comes first. -/
def serve (b : Broker) (peer : PeerId) (late : Bool) (x : Peer) : Option Broker :=
  match x.stage with
  | .greeting deadline =>
    match x.link.receive with
    | (link, .packet (.connect p)) =>
      some ((b.putPeer peer { x with link }).accept peer { x with link } p)
    | (link, .packet p) =>
      some ((b.putPeer peer { x with link }).closeLink peer |>.conclude peer
        (.error (.protocol (.unexpectedPacket p.kind))))
    | (_, .ended) => some ((b.closeLink peer).conclude peer (.ok ()))
    | (_, .nothing) =>
      if b.isDue (some deadline) then
        some ((b.closeLink peer).conclude peer (.error (.protocol .connectTimeout)))
      else none
  | .accepted c present earlier deadline =>
    if b.hasStopped earlier || b.isDue (some deadline) then some (b.welcome peer c present)
    else none
  | .serving c deadline =>
    if b.isCancelled c.conn && !late then some (b.leave peer c (.ok ()) false)
    else match x.link.receive with
      | (link, .packet p) => some ((b.putPeer peer { x with link }).onPacket peer c p)
      | (_, .ended) => some (b.leave peer c (.ok ()) false)
      | (_, .nothing) =>
        if b.isDue deadline then
          some (b.leave peer c (.error (.protocol .keepaliveTimeout)) false)
        else none
  | .busy c job =>
    if b.awaits job.uid job.event then none
    else match resume job.rest b with
      | (b, none) => some (b.keepServing peer c)
      | (b, some job) => some (b.setStage peer (.busy c job))
  | .leaving c result job =>
    if b.awaits job.uid job.event then none
    else match resume job.rest b with
      | (b, none) => some (b.forget peer c result)
      | (b, some job) => some (b.setStage peer (.leaving c result job))
  | .delivering conn _ =>
    if x.orphaned then none
    else if b.hasStopped conn then some (b.conclude peer (.ok ())) else none
  | .ended => none

end MqttBroker.Broker
