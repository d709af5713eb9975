import MqttBroker.Broker.Calls
import MqttBroker.Proofs.OpenStorage

/-!
Whom the broker attends to. Most of what it does leaves every link at its stage and every connection
to whom it belongs, and enters no message.
-/

namespace MqttBroker

/-- A message as it is entered, without what only concerns its way to the broker. -/
def Publish.announced (p : Publish) : Publish :=
  { p with retain := false, dup := false, packetId := none }

inductive Cause
  | publish (p : Publish)
  | push (p : Publish)
  | replay
  | will (conn : ConnectionId)

def Cause.Explains (m : Publish) : Cause → Prop
  | .publish p => m = p.announced
  | .push p => m = p
  | .replay => m.retain = true
  | .will _ => True

def Packet.cause : Packet → Cause
  | .publish p => .publish p
  | _ => .replay

namespace Broker

variable {b b' b'' : Broker}

def stage? (b : Broker) (peer : PeerId) : Option Stage := (b.peers.get? peer).map Peer.stage

/-- What stays of a connection that is known: its number, and whether it has been taken over by one
that resumed its session. -/
def handle? (b : Broker) (conn : ConnectionId) : Option (ConnectionId × Bool) :=
  (b.connections.get? conn).map fun c => (c.id, c.resumed)

def messageOf (b : Broker) (event : EventId) : Option Publish :=
  (b.events.event? event).map Event.message

structure Attends (b b' : Broker) : Prop where
  stage? : b'.stage? = b.stage?
  handle? : b'.handle? = b.handle?
  nextPeer : b'.nextPeer = b.nextPeer
  nextConnection : b'.nextConnection = b.nextConnection
  shuttingDown : b'.shuttingDown = b.shuttingDown
  clock : b'.clock = b.clock

/-- The same clients are attended to as before, and no message has been entered. -/
structure Stays (b b' : Broker) : Prop extends Attends b b' where
  next : b'.events.next = b.events.next
  messageOf : b'.messageOf = b.messageOf

theorem Attends.refl (b : Broker) : Attends b b := ⟨rfl, rfl, rfl, rfl, rfl, rfl⟩

theorem Attends.trans (first : Attends b b') (second : Attends b' b'') : Attends b b'' where
  stage? := second.stage?.trans first.stage?
  handle? := second.handle?.trans first.handle?
  nextPeer := second.nextPeer.trans first.nextPeer
  nextConnection := second.nextConnection.trans first.nextConnection
  shuttingDown := second.shuttingDown.trans first.shuttingDown
  clock := second.clock.trans first.clock

theorem Stays.refl (b : Broker) : Stays b b := ⟨.refl b, rfl, rfl⟩

theorem Stays.trans (first : Stays b b') (second : Stays b' b'') : Stays b b'' :=
  ⟨first.toAttends.trans second.toAttends, second.next.trans first.next,
    second.messageOf.trans first.messageOf⟩

def entered (b b' : Broker) : List Publish :=
  (List.range' b.events.next (b'.events.next - b.events.next)).filterMap b'.messageOf

theorem entered_congr {a a' : Broker} (start : a'.events.next = a.events.next)
    (next : b'.events.next = b.events.next) (messageOf : b'.messageOf = b.messageOf) :
    a'.entered b' = a.entered b := by
  unfold entered
  rw [start, next, messageOf]

theorem Stays.entered (stays : Stays b b') : b.entered b' = [] := by
  unfold Broker.entered
  rw [stays.next, Nat.sub_self]
  rfl

theorem entered_beside (events : b'.events = b.events) : b.entered b' = [] := by
  unfold entered
  rw [events, Nat.sub_self]
  rfl

def frontage (b : Broker) :
    Table PeerId Peer × Table ConnectionId Connection × Nat × Nat × Bool × Int64 ×
      Ledger Completion :=
  (b.peers, b.connections, b.nextPeer, b.nextConnection, b.shuttingDown, b.clock, b.events)

theorem stays_beside (same : b'.frontage = b.frontage) : Stays b b' := by
  simp only [frontage, Prod.mk.injEq] at same
  obtain ⟨peers, connections, nextPeer, nextConnection, shuttingDown, clock, events⟩ := same
  exact ⟨⟨by unfold Broker.stage?; rw [peers], by unfold Broker.handle?; rw [connections],
    nextPeer, nextConnection, shuttingDown, clock⟩, by rw [events],
    by unfold Broker.messageOf; rw [events]⟩

theorem putSession_stays (b : Broker) (s : Session) : Stays b (b.putSession s) :=
  stays_beside rfl

/-! Connections and links -/

theorem modify_stays (b : Broker) (conn : ConnectionId) (change : Connection → Connection)
    (keeps : ∀ c, ((change c).id, (change c).resumed) = (c.id, c.resumed)) :
    Stays b { b with connections := b.connections.modify conn change } := by
  refine ⟨⟨rfl, funext fun other => ?_, rfl, rfl, rfl, rfl⟩, rfl, rfl⟩
  simp only [Broker.handle?, Table.get?_modify]
  split
  · rw [Option.map_map]
    exact congrArg (Option.map · _) (funext keeps)
  · rfl

theorem cancel_stays (b : Broker) (conn : ConnectionId) : Stays b (b.cancel conn) :=
  b.modify_stays conn _ fun _ => rfl

theorem halt_stays (b : Broker) (conn : ConnectionId) : Stays b (b.halt conn) :=
  b.modify_stays conn _ fun _ => rfl

theorem kick_stays (b : Broker) (conn : ConnectionId) : Stays b (b.kick conn) :=
  b.modify_stays conn _ fun _ => rfl

theorem putConnection_stays {c c' : Connection} (known : b.connections.get? c.id = some c)
    (id : c'.id = c.id) (resumed : c'.resumed = c.resumed) : Stays b (b.putConnection c') := by
  refine ⟨⟨rfl, funext fun other => ?_, rfl, rfl, rfl, rfl⟩, rfl, rfl⟩
  simp only [Broker.handle?, putConnection, Table.get?_insert]
  split
  · rename_i same
    rw [same, id, known, Option.map_some, Option.map_some, id, resumed]
  · rfl

theorem putPeer_stays {peer : PeerId} {x x' : Peer} (known : b.peers.get? peer = some x)
    (keeps : x'.stage = x.stage) : Stays b (b.putPeer peer x') := by
  refine ⟨⟨funext fun other => ?_, rfl, rfl, rfl, rfl, rfl⟩, rfl, rfl⟩
  simp only [Broker.stage?, putPeer, Table.get?_insert]
  split
  · rename_i same
    rw [same, known, Option.map_some, Option.map_some, keeps]
  · rfl

theorem modifyPeer_stays (b : Broker) (peer : PeerId) (change : Peer → Peer)
    (keeps : ∀ x, (change x).stage = x.stage) :
    Stays b { b with peers := b.peers.modify peer change } := by
  refine ⟨⟨funext fun other => ?_, rfl, rfl, rfl, rfl, rfl⟩, rfl, rfl⟩
  simp only [Broker.stage?, Table.get?_modify]
  split
  · rw [Option.map_map]
    exact congrArg (Option.map · _) (funext keeps)
  · rfl

theorem closeLink_stays (b : Broker) (peer : PeerId) : Stays b (b.closeLink peer) :=
  b.modifyPeer_stays peer _ fun _ => rfl

theorem sendTo_stays (b : Broker) (peer : PeerId) (p : Packet) : Stays b (b.sendTo peer p).1 := by
  unfold sendTo
  split
  · exact .refl b
  · rename_i x known
    split
    · exact putPeer_stays known rfl
    · exact .refl b

/-! Events -/

theorem complete_stays (b : Broker) (c : Completion) : Stays b (b.complete c) := by
  cases c with
  | silent => exact .refl b
  | acknowledge conn id => exact b.modify_stays conn _ fun _ => rfl
  | report number => exact stays_beside rfl

theorem completeAll_stays (b : Broker) (due : List Completion) :
    Stays b (due.foldl complete b) := by
  induction due generalizing b with
  | nil => exact .refl b
  | cons c rest ih => exact (b.complete_stays c).trans (ih _)

theorem doneAll_stays (b : Broker) (ids : List EventId) : Stays b (b.doneAll ids) := by
  have counted : Stays b { b with events := (b.events.doneAll ids).1 } :=
    ⟨⟨rfl, rfl, rfl, rfl, rfl, rfl⟩, b.events.doneAll_next ids,
      funext fun other => b.events.doneAll_message ids other⟩
  exact counted.trans (completeAll_stays ..)

structure Publishes (b : Broker) (message : Publish) (b' : Broker) : Prop extends Attends b b' where
  next : b'.events.next = b.events.next + 1
  messageOf : ∀ event, b'.messageOf event =
    if event = b.events.next then some message else b.messageOf event

theorem Publishes.entered {message : Publish} (publishes : Publishes b message b') :
    b.entered b' = [message] := by
  unfold Broker.entered
  rw [publishes.next, Nat.add_sub_cancel_left]
  simp [publishes.messageOf]

theorem enter_publishes (b : Broker) (message : Publish) (recipients : Nat) (c : Completion) :
    Publishes b message (b.enter message recipients c).1 := by
  let entered : Broker := { b with events := (b.events.enter message recipients c).1 }
  have settled : Stays entered (b.enter message recipients c).1 := completeAll_stays ..
  have same : Attends b entered := ⟨rfl, rfl, rfl, rfl, rfl, rfl⟩
  refine ⟨same.trans settled.toAttends, settled.next, fun event => ?_⟩
  rw [settled.messageOf]
  change (entered.events.event? event).map Event.message = _
  simp only [entered, Ledger.enter, Ledger.event?, Table.get?_insert]
  split
  · exact congrArg some (Event.new_message ..)
  · rfl

theorem Stays.publishes {message : Publish} (first : Stays b b')
    (second : Publishes b' message b'') : Publishes b message b'' := by
  refine ⟨first.toAttends.trans second.toAttends, second.next.trans (by rw [first.next]), ?_⟩
  intro event
  rw [second.messageOf, first.next, first.messageOf]

theorem Publishes.stays {message : Publish} (first : Publishes b message b')
    (second : Stays b' b'') : Publishes b message b'' := by
  refine ⟨first.toAttends.trans second.toAttends, second.next.trans first.next, ?_⟩
  rw [second.messageOf]
  exact first.messageOf

/-! Sessions -/

theorem closeQueues_stays (b : Broker) (s : Session) (cleanup : Bool) :
    Stays b (b.closeQueues s cleanup).1 := by
  obtain ⟨stats, _, _, ⟨_, same⟩ | ⟨q, w, _, _, same⟩⟩ := b.closeQueues_frame s cleanup
  · rw [same]
    exact stays_beside rfl
  · rw [same]
    have closed : Stays b ({ b with storage := w.memory } : Broker) :=
      stays_beside rfl
    have counted : ∀ x : Broker, Stays x { x with stats } :=
      fun _ => stays_beside rfl
    exact (closed.trans (doneAll_stays ..)).trans (counted _)

theorem isolate_stays (b : Broker) (s : Session) : Stays b (b.isolate s) := by
  unfold isolate
  dsimp only
  split
  · refine Stays.trans ?_ (kick_stays ..)
    exact stays_beside rfl
  · exact stays_beside rfl

theorem retire_stays (b : Broker) (s : Session) (cleanup : Bool) :
    Stays b (b.retire s cleanup).1 := by
  have closed := (b.closeQueues_stays s cleanup).trans
    (putSession_stays _ (b.closeQueues s cleanup).2)
  unfold retire
  dsimp only
  split
  · split
    · exact closed.trans (stays_beside rfl)
    · exact closed
  · exact closed

theorem closeSession_stays (b : Broker) (uid : SessionUid) (cleanup : Bool) :
    Stays b (b.closeSession uid cleanup).1 := by
  unfold closeSession
  split
  · exact .refl b
  · split
    · exact .refl b
    · exact (b.isolate_stays _).trans (retire_stays ..)

theorem create_stays (b : Broker) (id : String) (clean : Bool) : Stays b (b.create id clean).1 :=
  stays_beside rfl

theorem destroy_stays (b : Broker) (uid : SessionUid) : Stays b (b.destroy uid).1 := by
  unfold destroy
  split
  · exact .refl b
  · dsimp only
    refine Stays.trans ?_ (closeSession_stays ..)
    split
    · exact stays_beside rfl
    · exact .refl b

theorem persist_stays {uid : SessionUid} (stored : b.persist uid = .ok b') : Stays b b' := by
  rcases persist_changes stored with rfl | ⟨_, _, _, _, rfl⟩
  · exact .refl _
  · exact stays_beside rfl

theorem release_stays (b : Broker) (uid : SessionUid) (conn : ConnectionId) :
    Stays b (b.release uid conn) := by
  unfold release
  split
  · exact .refl b
  · split
    · exact .refl b
    · dsimp only
      split
      · exact (putSession_stays ..).trans (destroy_stays ..)
      · exact putSession_stays ..

theorem subscribe_stays {uid : SessionUid} {filter : String} {qos : QoS} {added : Bool}
    (done : b.subscribe uid filter qos = .ok (b', added)) : Stays b b' := by
  obtain ⟨_, s, storage, exchange, stats, _, _, _, _, _, _, _, rfl⟩ := subscribe_changes done
  exact stays_beside rfl

theorem unsubscribe_stays {uid : SessionUid} {filter : String} {removed : Bool}
    (done : b.unsubscribe uid filter = .ok (b', removed)) : Stays b b' := by
  rcases unsubscribe_ok done with rfl | ⟨s, exchange, stats, matcher, info, _, _, ⟨_, rfl⟩ | rfl⟩
  · exact .refl b'
  · exact stays_beside rfl
  · have unbound : Stays b { b with exchange, stats } := stays_beside rfl
    exact (unbound.trans (closeQueues_stays ..)).trans (putSession_stays ..)

/-! Requests -/

theorem subscribeAll_stays (uid : SessionUid) (grants : Grants) (requests : List (String × QoS))
    (b : Broker) : Stays b (subscribeAll uid grants requests b).1 := by
  induction requests generalizing b with
  | nil => exact .refl b
  | cons request rest ih =>
      obtain ⟨filter, qos⟩ := request
      simp only [subscribeAll]
      split
      · split
        · exact .refl b
        · rename_i next _ subscribed
          exact (subscribe_stays subscribed).trans (ih next)
      · exact ih b

theorem requestSubscriptions_stays (b : Broker) (uid : SessionUid) (grants : Grants)
    (requests : List (String × QoS)) :
    Stays b (b.requestSubscriptions uid grants requests).1 := by
  have granted := subscribeAll_stays uid grants requests b
  unfold requestSubscriptions
  generalize subscribeAll uid grants requests b = after at granted ⊢
  obtain ⟨next, result⟩ := after
  cases result with
  | error e => exact granted
  | ok answer =>
      dsimp only
      split
      · rename_i stored
        exact granted.trans (persist_stays stored)
      · exact granted

theorem unsubscribeAll_stays (uid : SessionUid) (filters : List String) (b : Broker) :
    Stays b (unsubscribeAll uid filters b).1 := by
  induction filters generalizing b with
  | nil => exact .refl b
  | cons filter rest ih =>
      simp only [unsubscribeAll]
      split
      · rename_i next _ dropped
        exact (unsubscribe_stays dropped).trans (ih next)
      · exact .refl b

theorem requestUnsubscriptions_stays (b : Broker) (uid : SessionUid) (filters : List String) :
    Stays b (b.requestUnsubscriptions uid filters).1 := by
  have dropped := unsubscribeAll_stays uid filters b
  unfold requestUnsubscriptions
  generalize unsubscribeAll uid filters b = after at dropped ⊢
  obtain ⟨next, result⟩ := after
  cases result with
  | error e => exact dropped
  | ok _ =>
      dsimp only
      split
      · rename_i stored
        exact dropped.trans (persist_stays stored)
      · exact dropped

theorem acknowledge_stays (b : Broker) (uid : SessionUid) (id : PacketId) :
    Stays b (b.acknowledge uid id).1 := by
  unfold acknowledge
  split
  · exact .refl b
  · exact stays_beside rfl

theorem dropWill_stays (b : Broker) (c : Served) : Stays b (b.dropWill c) := by
  unfold dropWill
  split
  · exact .refl b
  · split
    · dsimp only
      split
      · rename_i stored
        exact (putSession_stays ..).trans (persist_stays stored)
      · exact putSession_stays ..
    · exact .refl b

/-! Messages -/

theorem pushGranted_stays (b : Broker) (uid : SessionUid) (event : EventId) (qos : QoS) :
    Stays b (b.pushGranted uid event qos) := by
  unfold pushGranted
  split
  · split
    · exact doneAll_stays ..
    · refine Stays.trans ?_ (doneAll_stays ..)
      exact stays_beside rfl
    · split
      · exact doneAll_stays ..
      · exact putSession_stays ..
  · exact .refl b

theorem push_stays (b : Broker) (uid : SessionUid) (event : EventId) :
    Stays b (b.push uid event) := by
  unfold push
  split
  · split
    · exact pushGranted_stays ..
    · exact doneAll_stays ..
  · exact .refl b

theorem route_stays (event : EventId) (targets : List SessionUid) (b : Broker) :
    Stays b (route event targets b).1 := by
  induction targets generalizing b with
  | nil => exact .refl b
  | cons uid rest ih =>
      simp only [route]
      split
      · exact b.push_stays uid event
      · exact (b.push_stays uid event).trans (ih _)

structure Replays (b b' : Broker) : Prop extends Attends b b' where
  grown : b.events.next ≤ b'.events.next
  kept : ∀ event < b.events.next, b'.messageOf event = b.messageOf event
  repeats : ∀ event, b.events.next ≤ event → event < b'.events.next →
    (b'.messageOf event).all Publish.retain = true

theorem Stays.replays (stays : Stays b b') : Replays b b' where
  toAttends := stays.toAttends
  grown := stays.next.ge
  kept _ _ := congrFun stays.messageOf _
  repeats _ from' below := absurd below (stays.next ▸ from').not_gt

theorem Publishes.replays {message : Publish} (publishes : Publishes b message b')
    (retained : message.retain = true) : Replays b b' where
  toAttends := publishes.toAttends
  grown := publishes.next ▸ Nat.le_succ _
  kept event below := (publishes.messageOf event).trans (if_neg (Nat.ne_of_lt below))
  repeats event from' below := by
    have last : event ≤ b.events.next := Nat.lt_succ_iff.mp (below.trans_eq publishes.next)
    rw [publishes.messageOf, if_pos (last.antisymm from')]
    exact retained

theorem Replays.trans (first : Replays b b') (second : Replays b' b'') : Replays b b'' where
  toAttends := first.toAttends.trans second.toAttends
  grown := first.grown.trans second.grown
  kept event below :=
    (second.kept event (below.trans_le first.grown)).trans (first.kept event below)
  repeats event from' below := by
    by_cases early : event < b'.events.next
    · rw [second.kept event early]
      exact first.repeats event from' early
    · exact second.repeats event (not_lt.mp early) below

theorem Replays.explained (replays : Replays b b') :
    ∀ m ∈ b.entered b', Cause.replay.Explains m := by
  intro m member
  obtain ⟨event, inside, message⟩ := List.mem_filterMap.mp member
  rw [List.mem_range'_1, Nat.add_sub_cancel' replays.grown] at inside
  simpa [message, Cause.Explains] using replays.repeats event inside.1 inside.2

theorem replayMessages_replays (uid : SessionUid) (qos : QoS) (granted : List (String × QoS))
    (messages : List Publish) (b : Broker) :
    Replays b (replayMessages uid qos granted messages b).1 := by
  induction messages generalizing b with
  | nil => exact (Stays.refl b).replays
  | cons p rest ih =>
      have queued := ((b.enter_publishes { p with retain := true } 1 .silent).stays
        (pushGranted_stays _ uid (b.enter { p with retain := true } 1 .silent).2 qos)).replays rfl
      simp only [replayMessages]
      split
      · exact queued
      · exact queued.trans (ih _)

theorem replay_replays (uid : SessionUid) (granted : List (String × QoS)) (b : Broker) :
    Replays b (replay uid granted b).1 := by
  induction granted generalizing b with
  | nil => exact (Stays.refl b).replays
  | cons subscription rest ih =>
      obtain ⟨filter, qos⟩ := subscription
      have replayed := replayMessages_replays uid qos rest (b.retain.select filter) b
      simp only [replay]
      generalize replayMessages uid qos rest (b.retain.select filter) b = after at replayed ⊢
      obtain ⟨next, paused⟩ := after
      cases paused with
      | none => exact replayed.trans (ih next)
      | some job => exact replayed

theorem resume_replays (job : Job) (b : Broker) : Replays b (resume job b).1 := by
  cases job with
  | route event targets => exact (route_stays event targets b).replays
  | replay uid messages qos granted =>
      have replayed := replayMessages_replays uid qos granted messages b
      simp only [resume]
      generalize replayMessages uid qos granted messages b = after at replayed ⊢
      obtain ⟨next, paused⟩ := after
      cases paused with
      | none => exact replayed.trans (replay_replays uid granted next)
      | some job => exact replayed

theorem keep_stays (b : Broker) (p : Publish) : Stays b (b.keep p) := by
  unfold keep
  split
  · split
    · exact stays_beside rfl
    · exact stays_beside rfl
  · exact .refl b

theorem publish_publishes (b : Broker) (p : Publish) (c : Completion) :
    Publishes b p.announced (b.publish p c).1 := by
  let x := b.keep p
  let targets := x.exchange.recipients p.announced.topic
  have counted : Stays x { x with stats := x.stats.countRoute targets.length } := stays_beside rfl
  have entered := enter_publishes { x with stats := x.stats.countRoute targets.length }
    p.announced targets.length c
  exact (((b.keep_stays p).trans counted).publishes entered).stays (route_stays ..)

/-! Activities -/

theorem withQueue_stays (b : Broker) (uid : SessionUid)
    (act : StoredQueue EventId → Storage.Memory → QueueWork EventId) :
    Stays b (b.withQueue uid act) := by
  unfold withQueue
  split
  · exact .refl b
  · split
    · exact .refl b
    · refine Stays.trans ?_ (doneAll_stays ..)
      exact stays_beside rfl

def Keyed (b : Broker) : Prop := ∀ conn c, b.connections.get? conn = some c → c.id = conn

def number? (b : Broker) (conn : ConnectionId) : Option ConnectionId :=
  (b.handle? conn).map Prod.fst

theorem keyed_iff (b : Broker) : b.Keyed ↔ ∀ conn id, b.number? conn = some id → id = conn := by
  constructor
  · intro keyed conn id known
    obtain ⟨handle, there, rfl⟩ := Option.map_eq_some_iff.mp known
    obtain ⟨c, present, rfl⟩ := Option.map_eq_some_iff.mp there
    exact keyed conn c present
  · intro own conn c present
    refine own conn c.id ?_
    rw [number?, Broker.handle?, present]
    rfl

theorem Keyed.of_number? (keyed : b.Keyed) (same : b'.number? = b.number?) : b'.Keyed := by
  rw [keyed_iff] at keyed ⊢
  rw [same]
  exact keyed

theorem Attends.keyed (attends : Attends b b') (keyed : b.Keyed) : b'.Keyed :=
  keyed.of_number? (by unfold number?; rw [attends.handle?])

theorem beginDelivery_stays {c : Connection} (known : b.connections.get? c.id = some c)
    (uid : SessionUid) : Stays b (b.beginDelivery c uid) := by
  unfold beginDelivery
  split
  · rename_i s x _ link
    dsimp only
    refine Stays.trans ?_ (putConnection_stays known rfl rfl)
    refine Stays.trans ?_ (putPeer_stays link rfl)
    exact putSession_stays ..
  · exact .refl b

theorem endDelivery_stays {c : Connection} (known : b.connections.get? c.id = some c)
    (out : Outgoing) : Stays b (b.endDelivery c out) := by
  unfold endDelivery
  dsimp only
  split
  · split
    · exact (putSession_stays ..).trans (putConnection_stays known rfl rfl)
    · exact putConnection_stays known rfl rfl
  · exact putConnection_stays known rfl rfl

theorem deliver_stays {c : Connection} (known : b.connections.get? c.id = some c) :
    Stays b (b.deliver c).1 := by
  unfold deliver
  split
  · rename_i out s x _ _ link
    split
    · exact endDelivery_stays known out
    · dsimp only
      refine Stays.trans ?_ (putConnection_stays known rfl rfl)
      refine Stays.trans ?_ (putPeer_stays link rfl)
      exact stays_beside rfl
  · exact .refl b

theorem hangUp_stays (keyed : b.Keyed) (peer : PeerId) (c : Served) :
    Stays b (b.hangUp peer c) := by
  have told := b.cancel_stays c.conn
  have keyed' := told.keyed keyed
  unfold hangUp
  dsimp only
  refine Stays.trans ?_ (closeLink_stays ..)
  split
  · rename_i x known
    have own := keyed' _ _ known
    split
    · exact told.trans (endDelivery_stays (own ▸ known) _)
    · exact told.trans (putConnection_stays (c := x) (own ▸ known) rfl rfl)
  · exact told

theorem dismiss_stays (b : Broker) (c : Served) : Stays b (b.dismiss c) := by
  unfold dismiss
  split
  · exact stays_beside rfl
  · exact .refl b

theorem closeSessions_stays (b : Broker) : Stays b b.closeSessions := by
  have unlisted : Stays b { b with registry := [] } := stays_beside rfl
  rw [closeSessions_closeListed]
  refine unlisted.trans ?_
  generalize ({ b with registry := [] } : Broker) = start
  induction b.registry.values generalizing start with
  | nil => exact .refl start
  | cons uid rest ih =>
      have counted : ∀ x : Broker, ∀ stats, Stays x { x with stats } := fun _ _ => stays_beside rfl
      have closed : Stays start (start.closeListed uid) :=
        (closeSession_stays start uid _).trans (counted _ _)
      exact closed.trans (ih _)

structure Processes (b : Broker) (p : Packet) (b' : Broker) (result : Outcome) : Prop
    extends Attends b b' where
  failed : ∀ e, result = .failed e → Stays b b'
  explained : ∀ m ∈ b.entered b', p.cause.Explains m

theorem Stays.processes {p : Packet} {result : Outcome} (stays : Stays b b') :
    Processes b p b' result where
  toAttends := stays.toAttends
  failed _ _ := stays
  explained := by simp [stays.entered]

theorem Outcome.ofJob_ne_failed (job : Option Paused) (e : Failure) :
    Outcome.ofJob job ≠ .failed e := by
  cases job <;> simp [ofJob]

theorem onPublish_processes (b : Broker) (c : Served) (p : Publish) :
    Processes b (.publish p) (b.onPublish c p).1 (b.onPublish c p).2 := by
  unfold onPublish
  split
  · exact (Stays.refl b).processes
  · rename_i completion _
    split
    · exact (Stays.refl b).processes
    · have published := b.publish_publishes p completion
      refine ⟨published.toAttends, fun e failed => absurd failed (Outcome.ofJob_ne_failed _ e), ?_⟩
      rw [published.entered]
      exact fun m member => List.mem_singleton.mp member

theorem onSubscribe_processes (b : Broker) (peer : PeerId) (c : Served) (id : PacketId)
    (requests : List (String × QoS)) :
    Processes b (.subscribe id requests) (b.onSubscribe peer c id requests).1
      (b.onSubscribe peer c id requests).2 := by
  have granted := b.requestSubscriptions_stays c.uid c.grants requests
  unfold onSubscribe
  split
  · rename_i same
    rw [same] at granted
    exact granted.processes
  · rename_i next status filters same
    rw [same] at granted
    have sent := granted.trans (next.sendTo_stays peer (.subscribeAck id status))
    split
    · rename_i unsent
      rw [unsent] at sent
      exact sent.processes
    · rename_i last answered
      rw [answered] at sent
      have replayed := sent.replays.trans (replay_replays c.uid filters last)
      exact ⟨replayed.toAttends, fun e failed => absurd failed (Outcome.ofJob_ne_failed _ e),
        replayed.explained⟩

theorem onUnsubscribe_processes (b : Broker) (peer : PeerId) (c : Served) (id : PacketId)
    (filters : List String) :
    Processes b (.unsubscribe id filters) (b.onUnsubscribe peer c id filters).1
      (b.onUnsubscribe peer c id filters).2 := by
  have dropped := b.requestUnsubscriptions_stays c.uid filters
  unfold onUnsubscribe
  split
  · rename_i same
    rw [same] at dropped
    exact dropped.processes
  · rename_i next same
    rw [same] at dropped
    have sent := dropped.trans (next.sendTo_stays peer (.unsubscribeAck id))
    split <;> rename_i answered <;> rw [answered] at sent <;> exact sent.processes

theorem process_processes (b : Broker) (peer : PeerId) (c : Served) (p : Packet) :
    Processes b p (b.process peer c p).1 (b.process peer c p).2 := by
  cases p with
  | publish p => exact b.onPublish_processes c p
  | publishAck id => exact (b.acknowledge_stays c.uid id).processes
  | subscribe id requests => exact b.onSubscribe_processes peer c id requests
  | unsubscribe id filters => exact b.onUnsubscribe_processes peer c id filters
  | pingRequest =>
      have sent := b.sendTo_stays peer .pingResponse
      simp only [process]
      split <;> rename_i answered <;> rw [answered] at sent <;> exact sent.processes
  | _ => exact (Stays.refl b).processes

/-! Claims -/

def bound? (b : Broker) (uid : SessionUid) : Option ConnectionId :=
  ((b.session? uid).bind Session.client).filter fun conn => (b.handle? conn).isSome

/-- The connection that a claim ends because it resumes the session for another. -/
def overtakes (b : Broker) (c : Claim) (conn : Option ConnectionId) (unique : Bool) :
    Option ConnectionId :=
  if b.shuttingDown || conn.isNone || !unique then none
  else (b.find? c.id).bind fun s =>
    if !c.clean && !s.info.cleanSession then b.bound? s.uid else none

structure TakesOver (b : Broker) (taken : Option ConnectionId) (b' : Broker) : Prop where
  stage? : b'.stage? = b.stage?
  ended : ∀ conn, taken = some conn →
    ∃ handle, b.handle? conn = some handle ∧ b'.handle? conn = some (handle.1, true)
  kept : ∀ conn, taken ≠ some conn → b'.handle? conn = b.handle? conn
  nextPeer : b'.nextPeer = b.nextPeer
  nextConnection : b'.nextConnection = b.nextConnection
  shuttingDown : b'.shuttingDown = b.shuttingDown
  clock : b'.clock = b.clock
  next : b'.events.next = b.events.next
  messageOf : b'.messageOf = b.messageOf

theorem Stays.takesOver (stays : Stays b b') : TakesOver b none b' where
  stage? := stays.stage?
  ended _ none := nomatch none
  kept _ _ := congrFun stays.handle? _
  nextPeer := stays.nextPeer
  nextConnection := stays.nextConnection
  shuttingDown := stays.shuttingDown
  clock := stays.clock
  next := stays.next
  messageOf := stays.messageOf

theorem TakesOver.stays {taken : Option ConnectionId} (first : TakesOver b taken b')
    (second : Stays b' b'') : TakesOver b taken b'' where
  stage? := second.stage?.trans first.stage?
  ended conn same := second.handle? ▸ first.ended conn same
  kept conn other := (congrFun second.handle? conn).trans (first.kept conn other)
  nextPeer := second.nextPeer.trans first.nextPeer
  nextConnection := second.nextConnection.trans first.nextConnection
  shuttingDown := second.shuttingDown.trans first.shuttingDown
  clock := second.clock.trans first.clock
  next := second.next.trans first.next
  messageOf := second.messageOf.trans first.messageOf

theorem Stays.before {taken : Option ConnectionId} (first : Stays b b')
    (second : TakesOver b' taken b'') : TakesOver b taken b'' where
  stage? := second.stage?.trans first.stage?
  ended conn same := first.handle? ▸ second.ended conn same
  kept conn other := first.handle? ▸ second.kept conn other
  nextPeer := second.nextPeer.trans first.nextPeer
  nextConnection := second.nextConnection.trans first.nextConnection
  shuttingDown := second.shuttingDown.trans first.shuttingDown
  clock := second.clock.trans first.clock
  next := second.next.trans first.next
  messageOf := second.messageOf.trans first.messageOf

theorem takeOver_takesOver (b : Broker) (conn : ConnectionId) :
    TakesOver b ((some conn).filter fun conn => (b.handle? conn).isSome) (b.takeOver conn) := by
  refine ⟨rfl, fun other same => ?_, fun other different => ?_, rfl, rfl, rfl, rfl, rfl, rfl⟩
  · obtain ⟨own, there⟩ := Option.filter_eq_some_iff.mp same
    cases own
    obtain ⟨handle, known⟩ := Option.isSome_iff_exists.mp there
    obtain ⟨c, present, rfl⟩ := Option.map_eq_some_iff.mp known
    refine ⟨_, known, ?_⟩
    simp only [Broker.handle?, takeOver, Table.get?_modify, if_true, present, Option.map_some]
  · simp only [Broker.handle?, takeOver, Table.get?_modify]
    split
    · rename_i same
      subst same
      cases known : b.connections.get? other with
      | none => rfl
      | some c =>
          refine absurd (Option.filter_eq_some_iff.mpr ⟨rfl, ?_⟩) different
          rw [Broker.handle?, known]
          rfl
    · rfl

theorem bind_takesOver (b : Broker) (s : Session) (conn : Option ConnectionId) (unique : Bool) :
    TakesOver b
      (if conn.isNone || !unique then none
        else s.client.filter fun conn => (b.handle? conn).isSome)
      (b.bind s conn unique).1 := by
  cases conn with
  | none => exact (Stays.refl b).takesOver
  | some conn =>
      have put : Stays b (b.putSession { s with client := some conn }) := putSession_stays ..
      cases client : s.client with
      | none =>
          simp only [Broker.bind, client, Option.filter_none, ite_self]
          exact put.takesOver
      | some old =>
          simp only [Broker.bind, client]
          cases unique with
          | false => exact (put.trans (halt_stays ..)).takesOver
          | true => exact put.before (takeOver_takesOver _ old)

theorem takeUp_takesOver (b : Broker) (c : Claim) (conn : Option ConnectionId) (unique : Bool)
    (uid : SessionUid) (present : Bool) :
    TakesOver b (if conn.isNone || !unique then none else b.bound? uid)
      (b.takeUp c conn unique uid present).1 := by
  unfold bound?
  cases found : b.session? uid with
  | none =>
      unfold takeUp
      simp only [found, Option.bind_none, Option.filter_none, ite_self]
      exact (Stays.refl b).takesOver
  | some s =>
      have put : Stays b (b.putSession (s.takenBy c)) := putSession_stays ..
      have bound := put.before (bind_takesOver _ (s.takenBy c) conn unique)
      have stored : ∀ taken,
          TakesOver b taken ((b.putSession (s.takenBy c)).bind (s.takenBy c) conn unique).1 →
            TakesOver b taken (b.takeUp c conn unique uid present).1 := by
        intro taken bound
        unfold Session.takenBy at bound
        unfold takeUp
        simp only [found]
        split
        · exact bound
        · rename_i stored
          exact bound.stays (persist_stays stored)
      exact stored _ bound

/-- Only a claim that resumes its session ends another connection. -/
theorem claim_takesOver (b : Broker) (c : Claim) (conn : Option ConnectionId) (unique : Bool) :
    TakesOver b (b.overtakes c conn unique) (b.claim c conn unique).1 := by
  rw [claim_takeUp]
  unfold overtakes
  by_cases down : b.shuttingDown
  · simp only [down, Bool.true_or, if_true]
    exact (Stays.refl b).takesOver
  simp only [down, Bool.false_or, Bool.false_eq_true, if_false]
  have fresh : ∀ (x : Broker), Stays b x →
      TakesOver b none ((x.create c.id c.clean).1.takeUp c conn unique x.nextUid false).1 := by
    intro x same
    have made := same.trans (x.create_stays c.id c.clean)
    have unbound : (x.create c.id c.clean).1.bound? x.nextUid = none := by
      rw [bound?, create_session?, if_pos rfl]
      rfl
    have taken := takeUp_takesOver (x.create c.id c.clean).1 c conn unique x.nextUid false
    rw [unbound, ite_self] at taken
    exact made.before taken
  unfold settleClaim
  cases b.find? c.id with
  | none =>
      rw [show (none : Option Session).bind _ = (none : Option ConnectionId) from rfl, ite_self]
      exact fresh b (.refl b)
  | some s =>
      have gone := b.destroy_stays s.uid
      dsimp only [Option.bind_some]
      by_cases durable : !c.clean && !s.info.cleanSession
      · simp only [durable, if_true]
        exact takeUp_takesOver ..
      · simp only [durable, Bool.false_eq_true, if_false, ite_self]
        generalize b.destroy s.uid = after at gone
        obtain ⟨next, result⟩ := after
        cases result with
        | error e => exact gone.takesOver
        | ok _ => exact fresh next gone

end Broker

end MqttBroker
