import MqttBroker.Proofs.Restoring

/-!
Histories of a broker from its start on: sessions are claimed and resumed, subscribe and
unsubscribe, are given messages and deliver them, are left and destroyed, in any order. A history
knows who became a client of which session, and which messages were handed to which session.
-/

namespace MqttBroker

namespace Broker

def acceptClient (b : Broker) (p : Connect) (commonName : Option String) (uuid : String)
    (peer : PeerId) : Broker × Except Failure (Client × ConnectionId × Claimed) :=
  let (b, conn) := b.newConnection
  match b.checkConnect p commonName uuid with
  | .error e => (b, .error e)
  | .ok (claim, grants) =>
    match (b.putConnection { id := conn, peer }).claim claim (some conn) true with
    | (b, .error e) => (b, .error e)
    | (b, .ok claimed) =>
      (b, .ok ({ uid := claimed.uid, principal := claim.principal, grants }, conn, claimed))

def takeOn (b : Broker) (peer : PeerId) (p : Connect) (client : Client) (conn : ConnectionId)
    (claimed : Claimed) : Broker :=
  let b := { b with served := b.served ++ [conn],
                    stats := { b.stats with connections := b.stats.connections.increment } }
  let c : Served := { conn, uid := client.uid, grants := client.grants, will := p.lastWill,
                      keepalive := b.settings.mqtt.keepaliveTimeout p.keepAlive }
  match claimed.replaced with
  | some old => b.setStage peer
      (.accepted c claimed.present old (b.now + b.settings.mqtt.connectTimeout))
  | none => b.welcome peer c claimed.present

theorem accept_acceptClient (b : Broker) (peer : PeerId) {x : Peer} (own : x.orphaned = false)
    (p : Connect) :
    b.accept peer x p = match b.acceptClient p x.link.commonName x.uuid peer with
      | (b, .error e) => b.refuse peer e
      | (b, .ok (client, conn, claimed)) => b.takeOn peer p client conn claimed := by
  unfold accept acceptClient
  simp only [own, Bool.false_eq_true, if_false]
  generalize b.newConnection = opened
  obtain ⟨b, conn⟩ := opened
  cases b.checkConnect p x.link.commonName x.uuid with
  | error e => rfl
  | ok checked =>
      obtain ⟨claim, grants⟩ := checked
      dsimp only
      generalize (b.putConnection { id := conn, peer }).claim claim (some conn) true = settled
      obtain ⟨next, result⟩ := settled
      cases result <;> rfl

theorem acceptClient_changes {clients : List Client} {handed : List (SessionUid × Publish)}
    {b : Broker} (orderly : b.Orderly) (p : Connect) (commonName : Option String) (uuid : String)
    (peer : PeerId) : Changes clients handed b (b.acceptClient p commonName uuid peer).1 := by
  unfold acceptClient
  dsimp only
  split
  · exact .beside (.of_eq rfl rfl rfl rfl rfl rfl rfl rfl)
  · rename_i c grants checked
    have opened : Beside b (b.newConnection.1.putConnection { id := b.newConnection.2, peer }) :=
      .of_eq rfl rfl rfl rfl rfl rfl rfl rfl
    have ready := orderly.beside opened.keeps opened.registry
    split
    · rename_i b' e claimed
      exact (Changes.beside opened).trans (claim_changes clients handed ready claimed).1
    · rename_i b' claimed same
      exact (Changes.beside opened).trans (claim_changes clients handed ready same).1

/-- The clients that the sessions had when they were recorded. -/
def recorded (b : Broker) : List Client :=
  b.sessions.values.filterMap fun s => (s.info.principal.bind b.access.lookup).map fun grants =>
    { uid := s.uid, principal := s.info.principal, grants }

/-- What is kept beside the sessions is replaced, but for the storage. -/
def aside (b other : Broker) : Broker :=
  { other with
    settings := b.settings, access := b.access, storage := b.storage, exchange := b.exchange
    sessions := b.sessions, registry := b.registry, nextUid := b.nextUid
    shuttingDown := b.shuttingDown }

end Broker

structure History where
  broker : Broker
  /-- All who are or have been clients of sessions. -/
  clients : List Client := []
  handed : List (SessionUid × Publish) := []

namespace History

inductive Act
  | connect (p : Connect) (commonName : Option String) (uuid : String) (peer : PeerId)
  | attach (c : Broker.Claim) (conn : Option ConnectionId) (unique : Bool)
  /-- A client sends SUBSCRIBE; clients are counted in the order in which they came. -/
  | subscribe (client : Nat) (requests : List (String × QoS))
  | unsubscribe (uid : SessionUid) (filters : List String)
  | acknowledge (uid : SessionUid) (id : PacketId)
  | push (uid : SessionUid) (event : EventId)
  | pushGranted (uid : SessionUid) (event : EventId) (qos : QoS)
  | keep (p : Publish)
  | turns (uid : SessionUid) (activities : List DurableQueue.Activity)
  | beginDelivery (c : Connection) (uid : SessionUid)
  | deliver (c : Connection)
  | endDelivery (c : Connection) (out : Outgoing)
  | persist (uid : SessionUid)
  | dropWill (c : Served)
  | release (uid : SessionUid) (conn : ConnectionId)
  | destroy (uid : SessionUid)
  | stop
  | closeSessions
  /-- Something happens that has nothing to do with sessions. -/
  | aside (other : Broker)

def step (h : History) : Act → History
  | .connect p commonName uuid peer =>
    match h.broker.acceptClient p commonName uuid peer with
    | (broker, .error _) => { h with broker }
    | (broker, .ok (client, _, _)) => { h with broker, clients := h.clients ++ [client] }
  | .attach c conn unique => { h with broker := (h.broker.claim c conn unique).1 }
  | .subscribe client requests =>
    match h.clients[client]? with
    | some c => { h with broker := (h.broker.requestSubscriptions c.uid c.grants requests).1 }
    | none => h
  | .unsubscribe uid filters =>
    { h with broker := (h.broker.requestUnsubscriptions uid filters).1 }
  | .acknowledge uid id => { h with broker := (h.broker.acknowledge uid id).1 }
  | .push uid event =>
    { h with broker := h.broker.push uid event
             handed := h.handed ++ h.broker.messageFor uid event }
  | .pushGranted uid event qos =>
    { h with broker := h.broker.pushGranted uid event qos
             handed := h.handed ++ h.broker.messageFor uid event }
  | .keep p => { h with broker := h.broker.keep p }
  | .turns uid activities => { h with broker := h.broker.turns uid activities }
  | .beginDelivery c uid => { h with broker := h.broker.beginDelivery c uid }
  | .deliver c => { h with broker := (h.broker.deliver c).1 }
  | .endDelivery c out => { h with broker := h.broker.endDelivery c out }
  | .persist uid =>
    match h.broker.persist uid with
    | .ok broker => { h with broker }
    | .error _ => h
  | .dropWill c => { h with broker := h.broker.dropWill c }
  | .release uid conn => { h with broker := h.broker.release uid conn }
  | .destroy uid => { h with broker := (h.broker.destroy uid).1 }
  | .stop => { h with broker := { h.broker with shuttingDown := true } }
  | .closeSessions =>
    if h.broker.shuttingDown then { h with broker := h.broker.closeSessions } else h
  | .aside other => { h with broker := h.broker.aside other }

def run (h : History) (acts : List Act) : History := acts.foldl step h

def started (broker : Broker) : History := { broker, clients := broker.recorded }

structure Continues (h h' : History) : Prop where
  clients : h.clients ⊆ h'.clients
  handed : h.handed ⊆ h'.handed
  changes : Broker.Changes h'.clients h'.handed h.broker h'.broker

theorem Continues.refl (h : History) : Continues h h :=
  ⟨fun _ member => member, fun _ member => member, .refl h.broker⟩

theorem Continues.trans {h h' h'' : History} (first : Continues h h')
    (second : Continues h' h'') : Continues h h'' where
  clients _ member := second.clients (first.clients member)
  handed _ member := second.handed (first.handed member)
  changes := (first.changes.mono second.clients second.handed).trans second.changes

theorem continues_changed {h : History} {broker : Broker}
    (changes : Broker.Changes h.clients h.handed h.broker broker) :
    Continues h { h with broker } :=
  ⟨fun _ member => member, fun _ member => member, changes⟩

theorem continues_handed {h : History} {broker : Broker} (uid : SessionUid) (event : EventId)
    (changes : Broker.Changes h.clients (h.handed ++ h.broker.messageFor uid event) h.broker
      broker) :
    Continues h { h with broker, handed := h.handed ++ h.broker.messageFor uid event } :=
  ⟨fun _ member => member, List.subset_append_left .., changes⟩

theorem step_continues {h : History} (orderly : h.broker.Orderly) (a : Act) :
    Continues h (h.step a) := by
  cases a with
  | connect p commonName uuid peer =>
      have changes : ∀ clients, Broker.Changes clients h.handed h.broker
          (h.broker.acceptClient p commonName uuid peer).1 :=
        fun clients => Broker.acceptClient_changes orderly p commonName uuid peer
      simp only [step]
      split
      · rename_i broker e refused
        rw [refused] at changes
        exact continues_changed (changes h.clients)
      · rename_i broker client conn claimed accepted
        rw [accepted] at changes
        exact ⟨List.subset_append_left .., fun _ member => member, changes _⟩
  | attach c conn unique => exact continues_changed (Broker.claim_changes _ _ orderly rfl).1
  | subscribe client requests =>
      simp only [step]
      split
      · rename_i c found
        have member := List.mem_of_getElem? found
        exact continues_changed (Broker.requestSubscriptions_changes member ..)
      · exact .refl h
  | unsubscribe uid filters =>
      exact continues_changed (Broker.requestUnsubscriptions_changes ..)
  | acknowledge uid id => exact continues_changed (Broker.acknowledge_changes orderly uid id)
  | push uid event =>
      exact continues_handed uid event (Broker.push_changes orderly (List.subset_append_right ..))
  | pushGranted uid event qos =>
      exact continues_handed uid event
        (Broker.pushGranted_changes orderly (List.subset_append_right ..) qos)
  | keep p => exact continues_changed (Broker.keep_changes h.broker p)
  | turns uid activities => exact continues_changed (.one (.turns uid activities))
  | beginDelivery c uid => exact continues_changed (Broker.beginDelivery_changes orderly c uid)
  | deliver c => exact continues_changed (Broker.deliver_changes orderly c)
  | endDelivery c out => exact continues_changed (Broker.endDelivery_changes orderly c out)
  | persist uid =>
      simp only [step]
      split
      · rename_i broker stored
        exact continues_changed (.beside (Broker.persist_beside stored))
      · exact .refl h
  | dropWill c => exact continues_changed (Broker.dropWill_changes orderly c)
  | release uid conn => exact continues_changed (Broker.release_changes orderly uid conn)
  | destroy uid => exact continues_changed (.one (.destroyed uid))
  | stop => exact continues_changed (.one .stopping)
  | closeSessions =>
      simp only [step]
      split
      · rename_i down
        exact continues_changed (.one (.stopped down))
      · exact .refl h
  | aside other =>
      exact continues_changed (.beside (.of_eq rfl rfl rfl rfl rfl rfl rfl rfl))

theorem run_continues {h : History} (orderly : h.broker.Orderly) (acts : List Act) :
    Continues h (h.run acts) := by
  induction acts generalizing h with
  | nil => exact .refl h
  | cons a rest ih =>
      have first := step_continues orderly a
      exact first.trans (ih (first.changes.orderly orderly))

open Broker (start)

/-- A broker can be stopped anywhere, and another one started over what it leaves in storage. -/
theorem run_restorable {settings : Settings} {storage : Storage.Memory} {now : Nat}
    {clock : Int64} {fresh : Broker} (restorable : storage.Restorable)
    (begun : start settings storage now clock = .ok fresh) (acts : List Act) :
    ((started fresh).run acts).broker.storage.Restorable := by
  have orderly := (Broker.start_resumed restorable begun).orderly
  have changes := (run_continues orderly acts (h := started fresh)).changes
  exact ⟨(changes.orderly orderly).named, changes.filed (Broker.start_filed restorable begun)⟩

/-- What brokers leave in storage, each started over what the one before it left. -/
inductive Inherited : Storage.Memory → Prop
  | nothing : Inherited {}
  | left {storage settings now clock fresh} (acts : List Act) : Inherited storage →
      start settings storage now clock = .ok fresh →
      Inherited ((started fresh).run acts).broker.storage.reopen

theorem Inherited.restorable {storage : Storage.Memory} (inherited : Inherited storage) :
    storage.Restorable := by
  induction inherited with
  | nothing => exact Storage.Memory.restorable_empty
  | left acts _ begun earlier =>
      obtain ⟨named, filed⟩ := run_restorable earlier begun acts
      exact ⟨named.of_eq rfl rfl rfl, filed⟩

end History

end MqttBroker
