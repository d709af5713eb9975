import MqttBroker.Proofs.Deeds
import MqttBroker.Proofs.Moves

/-!
All that a broker does, until it closes its sessions, is deeds one after the other. Only where it
is asked to unsubscribe a session it does that before.
-/

namespace MqttBroker

namespace Broker

variable {b b' b'' : Broker}

def Deeds : Broker → Broker → Prop := Relation.ReflTransGen Deed

namespace Deeds

theorem refl (b : Broker) : Deeds b b := Relation.ReflTransGen.refl

theorem trans (first : Deeds b b') (second : Deeds b' b'') : Deeds b b'' :=
  Relation.ReflTransGen.trans first second

theorem one (deed : Deed b b') : Deeds b b' := .single deed

theorem aside (same : b'.counted = b.counted) : Deeds b b' := one (.aside same)

theorem counts (deeds : Deeds b b') (reckoned : b.Reckoned) : Counts b b' := by
  induction deeds with
  | refl => exact .refl reckoned
  | tail _ deed ih => exact ih.trans fun reckoned' => deed.counts reckoned'

theorem put {uid : SessionUid} {s : Session} (s' : Session) (present : b.session? uid = some s)
    (serves : s.Serves s') : Deeds b (b.putSession s') :=
  one (.used s' present serves)

end Deeds

/-! Connections, links and events -/

theorem cancel_counted (b : Broker) (conn : ConnectionId) : (b.cancel conn).counted = b.counted :=
  rfl

theorem sendTo_counted (b : Broker) (peer : PeerId) (p : Packet) :
    (b.sendTo peer p).1.counted = b.counted := by
  unfold sendTo
  split
  · rfl
  · split <;> rfl

theorem doneAll_counted (b : Broker) (ids : List EventId) :
    (b.doneAll ids).counted = b.counted := by
  obtain ⟨reported, connections, same⟩ := b.doneAll_frame ids
  rw [same]
  rfl

theorem enter_counted (b : Broker) (message : Publish) (recipients : Nat) (c : Completion) :
    (b.enter message recipients c).1.counted = b.counted := by
  obtain ⟨reported, connections, same⟩ := b.enter_frame message recipients c
  rw [same]
  rfl

theorem persist_counted {uid : SessionUid} (stored : b.persist uid = .ok b') :
    b'.counted = b.counted := by
  rcases persist_changes stored with rfl | ⟨_, _, _, _, rfl⟩ <;> rfl

/-! Sessions -/

theorem bind_deeds {s : Session} (present : b.session? s.uid = some s)
    (conn : Option ConnectionId) (unique : Bool) : Deeds b (b.bind s conn unique).1 := by
  unfold Broker.bind
  split
  · exact .refl b
  · rename_i conn
    have bound := Deeds.put { s with client := some conn } present
      ⟨rfl, rfl, rfl, rfl, rfl, rfl, rfl, rfl⟩
    dsimp only
    split
    · exact bound
    · refine bound.trans ?_
      dsimp only
      split <;> exact .aside rfl

theorem takeUp_deeds (b : Broker) (c : Claim) (conn : Option ConnectionId) (unique : Bool)
    (uid : SessionUid) (present : Bool) : Deeds b (b.takeUp c conn unique uid present).1 := by
  unfold takeUp
  split
  · exact .refl b
  · rename_i s found
    let taken : Session := { s with info := { s.info with
      cleanSession := c.clean, will := c.will, principal := c.principal } }
    have put : Deeds b (b.putSession taken) :=
      .put taken found ⟨rfl, rfl, rfl, rfl, rfl, rfl, rfl, rfl⟩
    have there : (b.putSession taken).session? taken.uid = some taken := by
      rw [session?_putSession, if_pos rfl]
    have bound := put.trans (bind_deeds there conn unique)
    dsimp only
    split
    · exact bound
    · rename_i stored
      exact bound.trans (.aside (persist_counted stored))

theorem claim_deeds (b : Broker) (c : Claim) (conn : Option ConnectionId) (unique : Bool) :
    Deeds b (b.claim c conn unique).1 := by
  rw [claim_takeUp]
  split
  · exact .refl b
  · have settled : Deeds b (b.settleClaim c).1 := .one (.settled c)
    split <;> rename_i same <;> rw [same] at settled
    · exact settled
    · exact settled.trans (takeUp_deeds ..)

theorem release_deeds (b : Broker) (uid : SessionUid) (conn : ConnectionId) :
    Deeds b (b.release uid conn) := by
  unfold release
  split
  · exact .refl b
  · rename_i s present
    split
    · exact .refl b
    · have unbound := Deeds.put { s with client := none } present
        ⟨rfl, rfl, rfl, rfl, rfl, rfl, rfl, rfl⟩
      dsimp only
      split
      · exact unbound.trans (.one (.destroyed uid))
      · exact unbound

theorem dropWill_deeds (b : Broker) (c : Served) : Deeds b (b.dropWill c) := by
  unfold dropWill
  split
  · exact .refl b
  · rename_i s present
    split
    · have dropped := Deeds.put { s with info := { s.info with will := none } } present
        ⟨rfl, rfl, rfl, rfl, rfl, rfl, rfl, rfl⟩
      dsimp only
      split
      · rename_i stored
        exact dropped.trans (.aside (persist_counted stored))
      · exact dropped
    · exact .refl b

theorem subscribeAll_deeds (uid : SessionUid) (grants : Grants) (requests : List (String × QoS))
    (b : Broker) : Deeds b (subscribeAll uid grants requests b).1 := by
  induction requests generalizing b with
  | nil => exact .refl b
  | cons request rest ih =>
      obtain ⟨filter, qos⟩ := request
      simp only [subscribeAll]
      split
      · split
        · exact .refl b
        · rename_i next _ subscribed
          exact (Deeds.one (.subscribed subscribed)).trans (ih next)
      · exact ih b

theorem requestSubscriptions_deeds (b : Broker) (uid : SessionUid) (grants : Grants)
    (requests : List (String × QoS)) :
    Deeds b (b.requestSubscriptions uid grants requests).1 := by
  have granted := subscribeAll_deeds uid grants requests b
  unfold requestSubscriptions
  generalize subscribeAll uid grants requests b = after at granted ⊢
  obtain ⟨next, result⟩ := after
  cases result with
  | error e => exact granted
  | ok answer =>
      dsimp only
      split
      · rename_i stored
        exact granted.trans (.aside (persist_counted stored))
      · exact granted

/-! Messages -/

theorem pushGranted_deeds (b : Broker) (uid : SessionUid) (event : EventId) (qos : QoS) :
    Deeds b (b.pushGranted uid event qos) := by
  unfold pushGranted
  split
  · rename_i s e present _
    split
    · exact .aside (doneAll_counted ..)
    · rename_i q queued _
      have serves : s.Serves { s with queues := some { q with
          temporary := (q.temporary.push e.message).1 } } :=
        ⟨rfl, rfl, rfl, rfl, rfl, by rw [queued]; rfl, rfl, rfl⟩
      exact ((Deeds.put _ present serves).trans (.aside rfl)).trans (.aside (doneAll_counted ..))
    · rename_i q queued _
      split
      · exact .aside (doneAll_counted ..)
      · rename_i durable _
        have serves : s.Serves { s with queues := some { q with durable } } :=
          ⟨rfl, rfl, rfl, rfl, rfl, by rw [queued]; rfl, rfl, rfl⟩
        exact .put _ present serves
  · exact .refl b

theorem push_deeds (b : Broker) (uid : SessionUid) (event : EventId) :
    Deeds b (b.push uid event) := by
  unfold push
  split
  · split
    · exact pushGranted_deeds ..
    · exact .aside (doneAll_counted ..)
  · exact .refl b

theorem route_deeds (event : EventId) (targets : List SessionUid) (b : Broker) :
    Deeds b (route event targets b).1 := by
  induction targets generalizing b with
  | nil => exact .refl b
  | cons uid rest ih =>
      simp only [route]
      split
      · exact b.push_deeds uid event
      · exact (b.push_deeds uid event).trans (ih _)

theorem replayMessages_deeds (uid : SessionUid) (qos : QoS) (granted : List (String × QoS))
    (messages : List Publish) (b : Broker) :
    Deeds b (replayMessages uid qos granted messages b).1 := by
  induction messages generalizing b with
  | nil => exact .refl b
  | cons p rest ih =>
      have queued := (Deeds.aside (b.enter_counted { p with retain := true } 1 .silent)).trans
        (pushGranted_deeds _ uid (b.enter { p with retain := true } 1 .silent).2 qos)
      simp only [replayMessages]
      split
      · exact queued
      · exact queued.trans (ih _)

theorem replay_deeds (uid : SessionUid) (granted : List (String × QoS)) (b : Broker) :
    Deeds b (replay uid granted b).1 := by
  induction granted generalizing b with
  | nil => exact .refl b
  | cons subscription rest ih =>
      obtain ⟨filter, qos⟩ := subscription
      have replayed := replayMessages_deeds uid qos rest (b.retain.select filter) b
      simp only [replay]
      generalize replayMessages uid qos rest (b.retain.select filter) b = after at replayed ⊢
      obtain ⟨next, paused⟩ := after
      cases paused with
      | none => exact replayed.trans (ih next)
      | some job => exact replayed

theorem resume_deeds (job : Job) (b : Broker) : Deeds b (resume job b).1 := by
  cases job with
  | route event targets => exact route_deeds event targets b
  | replay uid messages qos granted =>
      have replayed := replayMessages_deeds uid qos granted messages b
      simp only [resume]
      generalize replayMessages uid qos granted messages b = after at replayed ⊢
      obtain ⟨next, paused⟩ := after
      cases paused with
      | none => exact replayed.trans (replay_deeds uid granted next)
      | some job => exact replayed

theorem countRoute_counted (b : Broker) (recipients : Nat) :
    ({ b with stats := b.stats.countRoute recipients } : Broker).counted = b.counted := by
  unfold Stats.countRoute
  split <;> rfl

theorem publish_deeds (b : Broker) (p : Publish) (c : Completion) :
    Deeds b (b.publish p c).1 := by
  let x := b.keep p
  let targets := x.exchange.recipients p.announced.topic
  let noted : Broker := { x with stats := x.stats.countRoute targets.length }
  have kept : Deeds b noted := (Deeds.one (.kept p)).trans (.aside (x.countRoute_counted _))
  have entered := kept.trans (.aside (enter_counted noted p.announced targets.length c))
  exact entered.trans (route_deeds ..)

/-! Deliveries -/

theorem withQueue_deeds (b : Broker) (uid : SessionUid)
    (act : StoredQueue EventId → Storage.Memory → QueueWork EventId) :
    Deeds b (b.withQueue uid act) := by
  unfold withQueue
  split
  · exact .refl b
  · rename_i s present
    split
    · exact .refl b
    · rename_i q queued
      have serves : s.Serves { s with queues := some { q with
          durable := (act q.durable b.storage).queue } } :=
        ⟨rfl, rfl, rfl, rfl, rfl, by rw [queued]; rfl, rfl, rfl⟩
      exact ((Deeds.put _ present serves).trans (.aside rfl)).trans (.aside (doneAll_counted ..))

theorem beginDelivery_deeds (b : Broker) (c : Connection) (uid : SessionUid) :
    Deeds b (b.beginDelivery c uid) := by
  unfold beginDelivery
  split
  · rename_i s x present _
    let d := Delivery.ofSession s { uid } x.link b.stats.inflights
    have quiet := d.begin_quiet b.now
    have serves : s.Serves ((d.begin b.now).session s) := by
      refine ⟨rfl, rfl, rfl, rfl, rfl, ?_, quiet.entries, quiet.nextSeq⟩
      have durable := congrArg Option.isSome quiet.durable
      rwa [Option.isSome_map, Option.isSome_map] at durable
    exact (Deeds.put _ present serves).trans (.aside rfl)
  · exact .refl b

theorem endDelivery_deeds (b : Broker) (c : Connection) (out : Outgoing) :
    Deeds b (b.endDelivery c out) := by
  unfold endDelivery
  dsimp only
  split
  · rename_i s present
    split
    · exact (Deeds.put { s with inflight := s.inflight.release } present
        ⟨rfl, rfl, rfl, rfl, rfl, rfl, rfl, rfl⟩).trans (.aside rfl)
    · exact .aside rfl
  · exact .aside rfl

theorem deliver_deeds (b : Broker) (c : Connection) : Deeds b (b.deliver c).1 := by
  unfold deliver
  split
  · rename_i out s x _ found _
    split
    · exact endDelivery_deeds ..
    · obtain ⟨_, _, present⟩ := Option.bind_eq_some_iff.mp found
      let d := Delivery.ofSession s out x.link b.stats.inflights
      have delivered : Deeds b (b.drained s (Delivery.run d.steps d b.now).1) :=
        .one (.delivered _ present (d.run_drains d.steps b.now) (d.run_weighs d.steps b.now))
      exact delivered.trans (.aside rfl)
  · exact .refl b

/-! Links -/

theorem closeLink_counted (b : Broker) (peer : PeerId) : (b.closeLink peer).counted = b.counted :=
  rfl

theorem refuse_counted (b : Broker) (peer : PeerId) (e : Failure) :
    (b.refuse peer e).counted = b.counted := by
  unfold refuse
  dsimp only
  split
  · exact sendTo_counted ..
  · rfl

theorem forget_deeds (b : Broker) (peer : PeerId) (c : Served) (result : Except Failure Unit) :
    Deeds b (b.forget peer c result) :=
  (b.release_deeds c.uid c.conn).trans (.aside rfl)

theorem publishWill_deeds (b : Broker) (c : Served) : Deeds b (b.publishWill c).1 := by
  unfold publishWill
  dsimp only
  split
  · split
    · exact .refl b
    · exact publish_deeds ..
  · exact .refl b

theorem hangUp_deeds (b : Broker) (peer : PeerId) (c : Served) : Deeds b (b.hangUp peer c) := by
  have told : Deeds b (b.cancel c.conn) := .aside rfl
  unfold hangUp
  dsimp only
  refine Deeds.trans ?_ (.aside (closeLink_counted ..))
  split
  · split
    · exact told.trans (endDelivery_deeds ..)
    · exact told.trans (.aside rfl)
  · exact told

theorem leave_deeds (b : Broker) (peer : PeerId) (c : Served) (result : Except Failure Unit)
    (graceful : Bool) : Deeds b (b.leave peer c result graceful) := by
  have gone : Deeds b ((b.hangUp peer c).dismiss c) :=
    (b.hangUp_deeds peer c).trans (.one (.dismissed c))
  unfold leave
  dsimp only
  split
  · exact gone.trans (.aside rfl)
  · split
    · exact (gone.trans (dropWill_deeds ..)).trans (forget_deeds ..)
    · have published := gone.trans (publishWill_deeds _ c)
      split <;> rename_i same <;> rw [same] at published
      · exact published.trans (forget_deeds ..)
      · exact published.trans (.aside rfl)

theorem welcome_deeds (b : Broker) (peer : PeerId) (c : Served) (present : Bool) :
    Deeds b (b.welcome peer c present) := by
  have sent := Deeds.aside (b.sendTo_counted peer (.connectAck present .accepted))
  unfold welcome
  split <;> rename_i same <;> rw [same] at sent
  · exact sent.trans (leave_deeds ..)
  · split
    · exact (sent.trans (beginDelivery_deeds ..)).trans (.aside rfl)
    · exact sent

theorem accept_deeds (b : Broker) (peer : PeerId) (x : Peer) (p : Connect) :
    Deeds b (b.accept peer x p) := by
  have numbered : Deeds b (if x.orphaned then (b, 0) else b.newConnection).1 := by
    split <;> exact .aside rfl
  unfold accept
  generalize (if x.orphaned then (b, 0) else b.newConnection) = started at numbered ⊢
  obtain ⟨next, conn⟩ := started
  dsimp only at numbered ⊢
  split
  · exact numbered.trans (.aside (refuse_counted ..))
  · rename_i claim _ _
    split
    · exact numbered.trans (.aside (refuse_counted ..))
    · have ready : Deeds next (next.putConnection { id := conn, peer }) := .aside rfl
      have claimed := numbered.trans (ready.trans (claim_deeds _ claim (some conn) true))
      split <;> rename_i same <;> rw [same] at claimed
      · exact claimed.trans (.aside (refuse_counted ..))
      · have enlisted := claimed.trans (.one (.enlisted conn))
        split
        · exact enlisted.trans (.aside rfl)
        · exact enlisted.trans (welcome_deeds ..)

/-! Packets -/

theorem onPublish_deeds (b : Broker) (c : Served) (p : Publish) :
    Deeds b (b.onPublish c p).1 := by
  unfold onPublish
  split
  · exact .refl b
  · split
    · exact .refl b
    · exact publish_deeds ..

theorem onSubscribe_deeds (b : Broker) (peer : PeerId) (c : Served) (id : PacketId)
    (requests : List (String × QoS)) : Deeds b (b.onSubscribe peer c id requests).1 := by
  have granted := b.requestSubscriptions_deeds c.uid c.grants requests
  unfold onSubscribe
  split <;> rename_i same <;> rw [same] at granted
  · exact granted
  · rename_i next status _
    have sent := granted.trans (.aside (next.sendTo_counted peer (.subscribeAck id status)))
    split <;> rename_i answered <;> rw [answered] at sent
    · exact sent
    · exact sent.trans (replay_deeds ..)

theorem onUnsubscribe_deeds (b : Broker) (peer : PeerId) (c : Served) (id : PacketId)
    (filters : List String) :
    Deeds (unsubscribeAll c.uid filters b).1 (b.onUnsubscribe peer c id filters).1 := by
  have dropped : Deeds (unsubscribeAll c.uid filters b).1
      (b.requestUnsubscriptions c.uid filters).1 := by
    unfold requestUnsubscriptions
    generalize unsubscribeAll c.uid filters b = after
    obtain ⟨next, result⟩ := after
    cases result with
    | error e => exact .refl next
    | ok _ =>
        dsimp only
        split
        · rename_i stored
          exact .aside (persist_counted stored)
        · exact .refl next
  unfold onUnsubscribe
  split <;> rename_i same <;> rw [same] at dropped
  · exact dropped
  · rename_i next
    have sent := dropped.trans (.aside (next.sendTo_counted peer (.unsubscribeAck id)))
    split <;> rename_i answered <;> rw [answered] at sent <;> exact sent

theorem process_deeds (b : Broker) (peer : PeerId) (c : Served) (p : Packet)
    (other : ∀ id filters, p ≠ .unsubscribe id filters) : Deeds b (b.process peer c p).1 := by
  cases p with
  | publish p => exact b.onPublish_deeds c p
  | publishAck id => exact .one (.acknowledged c.uid id)
  | subscribe id requests => exact b.onSubscribe_deeds peer c id requests
  | unsubscribe id filters => exact absurd rfl (other id filters)
  | pingRequest =>
      have sent := Deeds.aside (b.sendTo_counted peer .pingResponse)
      simp only [process]
      split <;> rename_i answered <;> rw [answered] at sent <;> exact sent
  | _ => exact .refl b

theorem onPacket_settles {start : Broker} {peer : PeerId} {c : Served} {p : Packet}
    (processed : Deeds start (b.process peer c p).1) (stays : p ≠ .disconnect) :
    Deeds start (b.onPacket peer c p) := by
  unfold onPacket
  split
  · exact absurd rfl stays
  · split <;> rename_i same <;> rw [same] at processed
    · exact processed.trans (.aside rfl)
    · exact processed.trans (leave_deeds ..)
    · exact processed.trans (.aside rfl)

theorem onPacket_deeds (b : Broker) (peer : PeerId) (c : Served) (p : Packet)
    (other : ∀ id filters, p ≠ .unsubscribe id filters) : Deeds b (b.onPacket peer c p) := by
  by_cases stays : p = .disconnect
  · rw [stays]
    exact leave_deeds ..
  · exact onPacket_settles (b.process_deeds peer c p other) stays

/-! Moves -/

def dropping (b : Broker) : Option (SessionUid × List String) → Broker
  | none => b
  | some (uid, filters) => (unsubscribeAll uid filters b).1

/-- A session has been unsubscribed, if any has, and then all is deeds. -/
def Conducts (b : Broker) (dropped : Option (SessionUid × List String)) (b' : Broker) : Prop :=
  ∃ start : Broker, start.counted = b.counted ∧ Deeds (start.dropping dropped) b'

theorem Deeds.conducts (deeds : Deeds b b') : Conducts b none b' := ⟨b, rfl, deeds⟩

end Broker

def Packet.unsubscribes? : Packet → Option (List String)
  | .unsubscribe _ filters => some filters
  | _ => none

theorem Packet.unsubscribes?_none {p : Packet} (other : p.unsubscribes? = none) (id : PacketId)
    (filters : List String) : p ≠ .unsubscribe id filters := by
  rintro rfl
  cases other

namespace Broker

variable {b b' : Broker}

def forgoes (b : Broker) (late : Bool) (x : Peer) : Option (SessionUid × List String) :=
  x.stage.client?.bind fun c =>
    ((b.takes late x).bind Packet.unsubscribes?).map fun filters => (c.uid, filters)

def drops (b : Broker) : Move → Option (SessionUid × List String)
  | .unsubscribe uid filter => some (uid, [filter])
  | .serve peer late => (b.peers.get? peer).bind (b.forgoes late)
  | _ => none

theorem onPacket_conducts {start : Broker} (same : start.counted = b.counted) (peer : PeerId)
    (c : Served) (p : Packet) :
    Conducts b (p.unsubscribes?.map fun filters => (c.uid, filters)) (start.onPacket peer c p) := by
  refine ⟨start, same, ?_⟩
  cases dropped : p.unsubscribes? with
  | none => exact onPacket_deeds start peer c p (Packet.unsubscribes?_none dropped)
  | some filters =>
      cases p with
      | unsubscribe id filters =>
          cases dropped
          exact onPacket_settles (onUnsubscribe_deeds start peer c id filters) (by simp)
      | _ => cases dropped

theorem serve_conducts (b : Broker) (peer : PeerId) (late : Bool) (x : Peer) :
    Conducts b (b.forgoes late x) ((b.serve peer late x).getD b) := by
  have idle : Conducts b none b := (Deeds.refl b).conducts
  obtain ⟨link, stage, orphaned, uuid⟩ := x
  unfold forgoes takes serve
  cases stage with
  | greeting deadline =>
      refine Deeds.conducts ?_
      dsimp only
      split
      · rename_i link' p _
        have taken : Deeds b (b.putPeer peer ⟨link', .greeting deadline, orphaned, uuid⟩) :=
          .aside rfl
        exact taken.trans (accept_deeds ..)
      · exact .aside rfl
      · exact .aside rfl
      · split
        · exact .aside rfl
        · exact .refl b
  | accepted c present earlier deadline =>
      refine Deeds.conducts ?_
      dsimp only
      split
      · exact welcome_deeds ..
      · exact .refl b
  | serving c deadline =>
      dsimp only [Stage.client?, Option.bind_some]
      split
      · exact (leave_deeds ..).conducts
      · generalize link.receive = received
        obtain ⟨link', found⟩ := received
        cases found with
        | packet p =>
            let next : Broker := b.putPeer peer ⟨link', .serving c deadline, orphaned, uuid⟩
            have same : next.counted = b.counted := rfl
            exact onPacket_conducts same peer c p
        | ended => exact (leave_deeds ..).conducts
        | nothing =>
            dsimp only
            split
            · exact (leave_deeds ..).conducts
            · exact idle
  | busy c job =>
      refine Deeds.conducts ?_
      dsimp only
      split
      · exact .refl b
      · have resumed := resume_deeds job.rest b
        split <;> rename_i same <;> rw [same] at resumed <;> exact resumed.trans (.aside rfl)
  | leaving c result job =>
      refine Deeds.conducts ?_
      dsimp only
      split
      · exact .refl b
      · have resumed := resume_deeds job.rest b
        split <;> rename_i same <;> rw [same] at resumed
        · exact resumed.trans (forget_deeds ..)
        · exact resumed.trans (.aside rfl)
  | delivering conn uid =>
      refine Deeds.conducts ?_
      dsimp only
      split
      · exact .refl b
      · split
        · exact .aside rfl
        · exact .refl b
  | ended => exact idle

theorem attach_deeds (b : Broker) (address : String) (c : Claim) (unique bound : Bool) :
    Deeds b (b.attach address c unique bound).1 := by
  have claimed : ∀ {conn after result},
      ((b.receiving address).connected b.nextPeer).claim c conn unique = (after, result) →
        Deeds b after := by
    intro conn after result done
    have ready : Deeds b ((b.receiving address).connected b.nextPeer) := .aside rfl
    have claimed := ready.trans (claim_deeds _ c conn unique)
    rw [done] at claimed
    exact claimed
  unfold attach
  dsimp only
  cases bound
  all_goals
    simp only [Bool.false_eq_true, if_false, if_true]
    split
    · rename_i refused
      exact claimed refused
    · rename_i settled
      exact ((claimed settled).trans (beginDelivery_deeds ..)).trans (.aside rfl)

theorem resumeCallers_deeds (b : Broker) : Deeds b b.resumeCallers.1 := by
  have told : ∀ (x : Broker) (callers : List Paused), Deeds x { x with callers } :=
    fun _ _ => .aside rfl
  have resumed : ∀ (ready : List Paused) (x : Broker), Deeds x (ready.foldl (fun x job =>
      { (resume job.rest x).1 with
        callers := (resume job.rest x).1.callers ++ (resume job.rest x).2.toList }) x) := by
    intro ready
    induction ready with
    | nil => exact .refl
    | cons job rest ih => exact fun x => ((resume_deeds job.rest x).trans (told _ _)).trans (ih _)
  exact (told b _).trans (resumed _ _)

theorem publishFor_deeds (b : Broker) (p : Publish) : Deeds b (b.publishFor p).1 := by
  have numbered : Deeds b b.newReport.1 := .aside rfl
  have published := numbered.trans (publish_deeds _ p b.newReport.2)
  exact published.trans (.aside rfl)

theorem pushFor_deeds (b : Broker) (uid : SessionUid) (p : Publish) (granted : Option QoS) :
    Deeds b (b.pushFor uid p granted).1 := by
  have numbered : Deeds b b.newReport.1 := .aside rfl
  have entered := numbered.trans (.aside (b.newReport.1.enter_counted p 1 b.newReport.2))
  unfold pushFor
  cases granted with
  | some qos => exact entered.trans (pushGranted_deeds ..)
  | none => exact entered.trans (push_deeds ..)

theorem stop_counted (b : Broker) : b.stop.counted = b.counted := by
  have cancelled : ∀ (conns : List ConnectionId) (x : Broker),
      (conns.foldl cancel x).counted = x.counted := by
    intro conns
    induction conns with
    | nil => exact fun _ => rfl
    | cons conn rest ih => exact fun x => ih (x.cancel conn)
  unfold stop
  split
  · rfl
  · exact cancelled b.served { b with shuttingDown := true }

/-- The session that a move unsubscribes is unsubscribed, and all else are deeds, unless the move
closes sessions without destroying them. -/
theorem moved_conducts (b : Broker) {m : Move} (closes : ∀ uid cleanup, m ≠ .close uid cleanup)
    (ends : m ≠ .closeSessions) : Conducts b (b.drops m) (b.moved m) := by
  have deeds : Deeds b (b.moved m) → Conducts b none (b.moved m) := Deeds.conducts
  cases m with
  | close uid cleanup => exact absurd rfl (closes uid cleanup)
  | closeSessions => exact absurd rfl ends
  | serve peer late =>
      simp only [drops, moved]
      cases present : b.peers.get? peer with
      | none => exact (Deeds.refl b).conducts
      | some x => exact b.serve_conducts peer late x
  | unsubscribe uid filter =>
      refine ⟨b, rfl, ?_⟩
      simp only [drops, dropping, unsubscribeAll, moved]
      cases b.unsubscribe uid filter <;> exact .refl _
  | receive peer p =>
      refine deeds (.aside ?_)
      simp only [moved, receive]
      split
      · rfl
      · split <;> rfl
  | collect peer =>
      refine deeds (.aside ?_)
      simp only [moved, collect]
      split <;> rfl
  | deliver conn =>
      refine deeds ?_
      simp only [moved]
      cases b.connections.get? conn with
      | none => exact .refl b
      | some c => exact b.deliver_deeds c
  | subscribe uid filter qos =>
      refine deeds ?_
      simp only [moved]
      cases done : b.subscribe uid filter qos with
      | error e => exact .refl b
      | ok after => exact .one (.subscribed done)
  | persist uid =>
      refine deeds (.aside ?_)
      simp only [moved]
      cases done : b.persist uid with
      | error e => rfl
      | ok after => exact persist_counted done
  | kick s =>
      refine deeds (.aside ?_)
      simp only [moved, kickClient]
      split <;> rfl
  | openLink address commonName uuid => exact deeds (.aside rfl)
  | breakLink peer => exact deeds (.aside rfl)
  | abandonLink peer => exact deeds (.aside rfl)
  | turn uid act => exact deeds (b.withQueue_deeds uid act)
  | resumeCallers => exact deeds b.resumeCallers_deeds
  | attach address c unique bound => exact deeds (b.attach_deeds address c unique bound)
  | detach conn uid => exact deeds ((Deeds.aside (b.cancel_counted conn)).trans (release_deeds ..))
  | publish p => exact deeds (b.publishFor_deeds p)
  | push uid p granted => exact deeds (b.pushFor_deeds uid p granted)
  | acknowledge uid id => exact deeds (.one (.acknowledged uid id))
  | destroy uid => exact deeds (.one (.destroyed uid))
  | stop => exact deeds (.aside b.stop_counted)
  | store storage => exact deeds (.aside rfl)
  | wait now clock => exact deeds (.aside rfl)

end Broker

end MqttBroker
