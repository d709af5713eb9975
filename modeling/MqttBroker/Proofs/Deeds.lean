import MqttBroker.Proofs.Life
import MqttBroker.Proofs.Reckoning
import MqttBroker.Proofs.Retaining

/-!
What a broker does to what is counted. All comes down to a few kinds of deed, and each of them moves
the gauges by as much as it changes what they are about.
-/

namespace MqttBroker

/-! Deliveries -/

namespace Delivery

variable {d d' d'' : Delivery}

structure Weighs (d d' : Delivery) : Prop where
  ordered : d.window.Ordered → d'.window.Ordered
  gauge : ∀ others, d.window.Ordered → d.gauge.Shows (others + d.window.entries.length) →
    d'.gauge.Shows (others + d'.window.entries.length)

theorem Weighs.trans (first : Weighs d d') (second : Weighs d' d'') : Weighs d d'' where
  ordered ordered := second.ordered (first.ordered ordered)
  gauge others ordered shows :=
    second.gauge others (first.ordered ordered) (first.gauge others ordered shows)

theorem Quiet.weighs (quiet : Quiet d d') (gauge : d'.gauge = d.gauge) : Weighs d d' where
  ordered ordered := ordered.of_bodies quiet.entries quiet.nextSeq
  gauge others _ shows := by
    have same := congrArg List.length quiet.entries
    rw [List.length_map, List.length_map] at same
    rw [gauge, same]
    exact shows

theorem send_gauge (d : Delivery) (p : Packet) : (d.send p).gauge = d.gauge := by
  unfold send
  split <;> rfl

theorem await_gauge (d : Delivery) (id : PacketId) (seq : Nat) :
    (d.await id seq).gauge = d.gauge := by
  unfold await
  split <;> rfl

theorem resend_gauge (d : Delivery) (id : PacketId) (seq now : Nat) :
    (d.resend id seq now).gauge = d.gauge := by
  unfold resend
  split
  · rfl
  · exact (await_gauge ..).trans (send_gauge ..)

theorem send_weighs (d : Delivery) (p : Packet) : Weighs d (d.send p) :=
  (send_quiet ..).weighs (send_gauge ..)

theorem retry_weighs {now : Nat} (retried : d.retry now = some d') : Weighs d d' := by
  refine (retry_quiet retried).weighs ?_
  unfold retry at retried
  split at retried
  · split at retried
    · cases retried
      exact resend_gauge ..
    · cases retried
  · cases retried

theorem takeIn_weighs (d : Delivery) (q : SessionQueues) (durable : StoredQueue EventId)
    (next : StoredMessage) (now : Nat) : Weighs d (d.takeIn q durable next now).1 where
  ordered ordered := ordered.insert next.offset next.message now
  gauge others ordered shows := by
    rcases ordered.takeIn_gauge q durable next now with ⟨more, longer⟩ | ⟨same, level⟩
    · rw [more, longer]
      exact shows.increment rfl
    · rw [same, level]
      exact shows

theorem forward_weighs {now : Nat} (forwarded : d.forward now = some d') : Weighs d d' := by
  unfold forward at forwarded
  split at forwarded
  · rename_i p rest _
    cases forwarded
    have first : Weighs d { d with out := { d.out with replies := rest } } :=
      (out_quiet d _).weighs rfl
    exact first.trans (send_weighs ..)
  · split at forwarded
    · cases forwarded
      refine (dropPermit_quiet d).weighs ?_
      unfold dropPermit
      split <;> rfl
    · cases forwarded
  · rename_i q _ queued
    split at forwarded
    · rename_i temporary p _
      cases forwarded
      have first : Quiet d { d with queues := some { q with temporary } } :=
        ⟨by simp [queued], rfl, rfl⟩
      exact (first.weighs rfl).trans (send_weighs ..)
    · split at forwarded
      · unfold sendDurable at forwarded
        split at forwarded
        · cases forwarded
        · rename_i durable m _
          cases forwarded
          exact ((takeIn_weighs d q durable m now).trans (send_weighs ..)).trans
            ((await_quiet ..).weighs (await_gauge ..))
      · refine (takePermit_quiet forwarded).weighs ?_
        simp only [takePermit, Option.map_eq_some_iff] at forwarded
        obtain ⟨_, _, rfl⟩ := forwarded
        rfl

theorem next_weighs {now : Nat} (step : d.next now = some d') : Weighs d d' := by
  unfold next at step
  split at step
  · cases step
  · cases forwarded : d.forward now with
    | some _ =>
        rw [forwarded] at step
        exact forward_weighs (forwarded.trans step)
    | none =>
        rw [forwarded] at step
        exact retry_weighs step

theorem run_weighs (fuel : Nat) (d : Delivery) (now : Nat) : Weighs d (run fuel d now).1 := by
  induction fuel generalizing d with
  | zero => exact (Quiet.refl d).weighs rfl
  | succ fuel ih =>
      simp only [run]
      split
      · exact (Quiet.refl d).weighs rfl
      · rename_i d' step
        exact (next_weighs step).trans (ih d')

end Delivery

/-! Sessions that are used -/

/-- Nothing has changed of a session but whom it serves, what is in its queues, and when its
messages were sent. -/
structure Session.Serves (s s' : Session) : Prop where
  uid : s'.uid = s.uid
  id : s'.info.id = s.info.id
  subscriptions : s'.info.subscriptions = s.info.subscriptions
  matcher : s'.matcher = s.matcher
  closed : s'.closed = s.closed
  queues : s'.queues.isSome = s.queues.isSome
  entries : s'.inflight.entries.map InflightEntry.body =
    s.inflight.entries.map InflightEntry.body
  nextSeq : s'.inflight.nextSeq = s.inflight.nextSeq

theorem Session.Serves.remains {s s' : Session} (serves : s.Serves s') : s.Remains s' where
  uid := serves.uid
  id := serves.id
  closed := serves.closed
  kempt kempt := by
    refine ⟨fun gone => ?_, kempt.ordered.of_bodies serves.entries serves.nextSeq,
      serves.subscriptions ▸ kempt.filters⟩
    obtain ⟨idle, empty⟩ := kempt.idle (serves.closed.symm.trans gone)
    have none := serves.entries
    have same := serves.queues
    rw [empty] at none
    rw [idle, Option.isSome_none, Option.isSome_eq_false_iff, Option.isNone_iff_eq_none] at same
    exact ⟨same, List.map_eq_nil_iff.mp none⟩

namespace Broker

variable {b b' b'' : Broker}

def enlist (b : Broker) (conn : ConnectionId) : Broker :=
  { b with served := b.served ++ [conn],
           stats := { b.stats with connections := b.stats.connections.increment } }

def drained (b : Broker) (s : Session) (d : Delivery) : Broker :=
  ({ b with stats := { b.stats with inflights := d.gauge } }).putSession (d.session s)

inductive Deed (b : Broker) : Broker → Prop
  | aside {b' : Broker} : b'.counted = b.counted → Deed b b'
  | used {uid s} (s' : Session) : b.session? uid = some s → s.Serves s' → Deed b (b.putSession s')
  | delivered {uid s out link} (d : Delivery) : b.session? uid = some s →
      (Delivery.ofSession s out link b.stats.inflights).Drains d →
      (Delivery.ofSession s out link b.stats.inflights).Weighs d → Deed b (b.drained s d)
  | acknowledged (uid : SessionUid) (id : PacketId) : Deed b (b.acknowledge uid id).1
  | subscribed {b' : Broker} {uid filter qos added} :
      b.subscribe uid filter qos = .ok (b', added) → Deed b b'
  | settled (c : Claim) : Deed b (b.settleClaim c).1
  | destroyed (uid : SessionUid) : Deed b (b.destroy uid).1
  | kept (p : Publish) : Deed b (b.keep p)
  | enlisted (conn : ConnectionId) : Deed b (b.enlist conn)
  | dismissed (c : Served) : Deed b (b.dismiss c)

/-! What each deed counts -/

theorem Reckoned.counts_aside (reckoned : b.Reckoned) (sessions : b'.sessions = b.sessions)
    (registry : b'.registry = b.registry) (exchange : b'.exchange = b.exchange)
    (nextUid : b'.nextUid = b.nextUid)
    (registered : b'.stats.sessions = b.stats.sessions)
    (subscriptions : b'.stats.subscriptions = b.stats.subscriptions)
    (inflights : b'.stats.inflights = b.stats.inflights)
    (connections : b'.stats.connections.Shows b'.served.length)
    (messages : b'.retain.messages.Increasing)
    (retained : b'.retain.gauge.Shows b'.retain.messages.length) : Counts b b' := by
  have found := session?_beside sessions
  have ordered := reckoned.toOrdered.beside sessions nextUid
  have rolled : b'.Rolled := by
    refine ⟨ordered, ?_, ?_, registry ▸ reckoned.roll⟩
    · rw [found, registry]
      exact reckoned.live
    · rw [found, registry]
      exact reckoned.listed
  have inflights : b'.stats.inflights.Shows b'.inFlight := by
    rw [inflights, inFlight, tally_beside sessions]
    exact reckoned.inflights
  have totalled : b'.Totalled :=
    ⟨ordered, exchange ▸ reckoned.spaces, messages, connections, inflights, retained⟩
  refine ⟨{ rolled, totalled with registered := ?_ }, ?_, ?_, ?_⟩
  · rw [registered, tally_beside sessions]
    exact reckoned.registered
  · rw [namespaces, exchange]
    rfl
  · rw [found]
    exact fun uid s present => ⟨s, present, fun _ => id⟩
  · exact fun _ subscribed => subscribed.beside sessions nextUid exchange subscriptions

theorem Reckoned.counts_counted (reckoned : b.Reckoned) (same : b'.counted = b.counted) :
    Counts b b' := by
  obtain ⟨sessions, inflights, standing⟩ := counted_eq same
  obtain ⟨registry, exchange, nextUid, served, retain, connections, registered, subscriptions⟩ :=
    standing_eq standing
  refine reckoned.counts_aside sessions registry exchange nextUid registered subscriptions
    inflights ?_ ?_ ?_
  · rw [connections, served]
    exact reckoned.connections
  · rw [retain]
    exact reckoned.messages
  · rw [retain]
    exact reckoned.retained

theorem Reckoned.counts_changed (reckoned : b.Reckoned) {s s' : Session}
    (present : b.session? s.uid = some s) (remains : s.Remains s')
    (subscriptions : s'.info.subscriptions = s.info.subscriptions)
    (sessions : b'.sessions = b.sessions.insert s.uid s') (standing : b'.standing = b.standing)
    (inflights : b'.stats.inflights.Shows b'.inFlight) : Counts b b' := by
  obtain ⟨_, exchange, nextUid, _, _, _, _, gauge⟩ := standing_eq standing
  have found := session?_inserted sessions
  have after :=
    reckoned.reformed present remains sessions reckoned.spaces standing rfl rfl inflights
  refine ⟨after, ?_, ?_, ?_⟩
  · rw [namespaces, exchange]
    rfl
  · intro uid x here
    rw [found]
    split
    · rename_i same
      rw [same, present] at here
      cases here
      exact ⟨s', rfl, fun filter held => by rwa [Session.holds, subscriptions]⟩
    · exact ⟨x, here, fun _ => id⟩
  · intro _ subscribed
    constructor
    · refine subscribed.routed.unchanged after.own (fun uid filter => ?_) exchange
      rw [holds_changed found]
      by_cases same : uid = s.uid
      · subst same
        have held : s'.holds filter = s.holds filter := by
          rw [Session.holds, subscriptions, Session.holds]
        rw [holds_iff present, remains.closed, held]
        simp
      · simp [same]
    · have same : s'.weight (fun s => s.info.subscriptions.length) =
          s.weight fun s => s.info.subscriptions.length := by
        rw [Session.weight, Session.weight, remains.closed, subscriptions]
      rw [gauge, Broker.subscribed, reckoned.tally_same present sessions same]
      exact subscribed.shown

theorem Reckoned.counts_used (reckoned : b.Reckoned) {uid : SessionUid} {s s' : Session}
    (present : b.session? uid = some s) (serves : s.Serves s') : Counts b (b.putSession s') := by
  obtain ⟨rfl, _⟩ := reckoned.own uid s present
  have remains := serves.remains
  have sessions : (b.putSession s').sessions = b.sessions.insert s.uid s' := by
    rw [putSession, serves.uid]
  have length := congrArg List.length serves.entries
  rw [List.length_map, List.length_map] at length
  refine reckoned.counts_changed present remains serves.subscriptions sessions rfl ?_
  exact reckoned.inFlight_shown present remains sessions fun _ shows => length.symm ▸ shows

theorem Reckoned.counts_delivered (reckoned : b.Reckoned) {uid : SessionUid} {s : Session}
    (present : b.session? uid = some s) {out : Outgoing} {link : Link} {d : Delivery}
    (drains : (Delivery.ofSession s out link b.stats.inflights).Drains d)
    (weighs : (Delivery.ofSession s out link b.stats.inflights).Weighs d) :
    Counts b (b.drained s d) := by
  obtain ⟨rfl, _⟩ := reckoned.own uid s present
  have kempt := reckoned.kempt _ _ present
  have sessions : (b.drained s d).sessions = b.sessions.insert s.uid (d.session s) := rfl
  have remains : s.Remains (d.session s) := by
    refine ⟨rfl, rfl, rfl, fun kempt => ⟨fun gone => ?_, weighs.ordered kempt.ordered,
      kempt.filters⟩⟩
    obtain ⟨idle, empty⟩ := kempt.idle gone
    refine ⟨?_, drains.window idle empty⟩
    have same := drains.queues
    simp only [Delivery.ofSession, idle, Option.isSome_none, Option.isSome_eq_false_iff,
      Option.isNone_iff_eq_none] at same
    exact same
  refine reckoned.counts_changed present remains rfl sessions rfl ?_
  exact reckoned.inFlight_shown present remains sessions fun others =>
    weighs.gauge others kempt.ordered

theorem acknowledge_some {s s' : Session} {id : PacketId} (done : s.acknowledge id = some s') :
    ∃ queues, (s.inflight.find? id).isSome = true ∧
      s' = { s with inflight := (s.inflight.ack id).1, queues } := by
  unfold Session.acknowledge Inflight.ack at done
  unfold Inflight.ack
  cases found : s.inflight.find? id with
  | none =>
      rw [found] at done
      cases done
  | some e =>
      rw [found] at done
      cases done
      exact ⟨_, rfl, rfl⟩

theorem Reckoned.counts_acknowledged (reckoned : b.Reckoned) (uid : SessionUid) (id : PacketId) :
    Counts b (b.acknowledge uid id).1 := by
  unfold acknowledge
  split
  · exact .refl reckoned
  · rename_i answered
    obtain ⟨s, present, acked⟩ := Option.bind_eq_some_iff.mp answered
    obtain ⟨rfl, _⟩ := reckoned.own uid s present
    obtain ⟨queues, there, rfl⟩ := acknowledge_some acked
    have kempt := reckoned.kempt _ _ present
    have shorter := kempt.ordered.length_without id
    rw [← Inflight.ack_entries] at shorter
    obtain ⟨e, found⟩ := Option.isSome_iff_exists.mp there
    rw [found, Option.toList_some, List.length_singleton] at shorter
    have live : s.closed = false := by
      by_contra gone
      rw [(kempt.idle (by simpa using gone)).2] at shorter
      cases shorter
    have remains : s.Remains { s with inflight := (s.inflight.ack id).1, queues } := by
      refine ⟨rfl, rfl, rfl, fun kempt => ⟨fun gone => ?_, kempt.ordered.ack id, kempt.filters⟩⟩
      rw [live] at gone
      cases gone
    refine reckoned.counts_changed present remains rfl rfl rfl ?_
    exact reckoned.inFlight_shown present remains rfl fun others shows =>
      shows.decrement (by rw [← shorter, Nat.add_assoc])

/-! Subscribing -/

theorem subscribe_stats {uid : SessionUid} {filter : String} {qos : QoS} {added : Bool}
    (done : b.subscribe uid filter qos = .ok (b', added)) :
    b'.stats = { b.stats with subscriptions :=
      if added then b.stats.subscriptions.increment else b.stats.subscriptions } := by
  obtain ⟨_, s, start, ready, _, _, _, provided, entered⟩ := subscribe_ok done
  have stats : start.stats = b.stats := by
    rcases provide_ok provided with ⟨_, rfl, _⟩ | ⟨_, opened⟩
    · rfl
    · obtain ⟨_, _, _, rfl, _⟩ := openQueues_ok opened
      rfl
  unfold enterSubscription at entered
  split at entered
  · cases entered
    exact stats
  · split at entered
    · cases entered
    · cases entered
      rw [← stats]
      rfl

theorem bind_spaces {x x' : Exchange} {filter : String} {uid : SessionUid} {added : Bool}
    (increasing : x.spaces.Increasing) (bound : x.bind filter uid = .ok (x', added)) :
    x'.spaces.Increasing := by
  obtain ⟨p, _, rfl⟩ := Exchange.bind_place bound
  cases p.1 with
  | none => exact increasing
  | some space => exact increasing.insert space _

theorem length_subscriptions {s : Session} (kempt : s.Kempt) (filter : String) (qos : QoS) :
    (s.info.subscriptions.insert filter qos).length + (if s.holds filter then 1 else 0) =
      s.info.subscriptions.length + 1 := by
  have counted := kempt.filters.length_insert filter qos
  unfold Session.holds Table.contains
  cases found : s.info.subscriptions.get? filter <;> simp_all

theorem Ordered.subscribes (ordered : b.Ordered) {uid : SessionUid} {filter : String} {qos : QoS}
    {added : Bool} (done : b.subscribe uid filter qos = .ok (b', added)) :
    ∃ s s' : Session, b.session? s.uid = some s ∧ s.closed = false ∧ s'.closed = false ∧
      s.Remains s' ∧ s'.inflight = s.inflight ∧
      (∀ other, s.holds other = true → s'.holds other = true) ∧
      s'.info.subscriptions.length = s.info.subscriptions.length + added.toNat ∧
      b'.sessions = b.sessions.insert s.uid s' ∧
      (b.exchange.spaces.Increasing → b'.exchange.spaces.Increasing) ∧
      b'.namespaces = b.namespaces ∧
      b'.standing = { b with exchange := b'.exchange, stats := b'.stats }.standing := by
  obtain ⟨topic, s, storage, exchange, stats, queues, matcher, _, present, live, _, entered,
    after⟩ := subscribe_changes done
  obtain ⟨rfl, _⟩ := ordered.own uid s present
  have longer := length_subscriptions (ordered.kempt _ _ present) filter qos
  let s' : Session := { s with queues, matcher, info := { s.info with
    subscriptions := s.info.subscriptions.insert filter qos } }
  have remains : s.Remains s' := by
    refine ⟨rfl, rfl, rfl, fun kempt => ⟨fun gone => ?_, kempt.ordered,
      kempt.filters.insert filter qos⟩⟩
    exact (nomatch live.symm.trans gone)
  refine ⟨s, s', present, live, live, remains, rfl, fun other held => ?_, ?_, by rw [after]; rfl,
    ?_, ?_, by rw [after]; rfl⟩
  · rw [Session.holds, Session.holds_insert, held, Bool.or_true]
  · rcases entered with ⟨held, rfl, _⟩ | ⟨other, rfl, _⟩
    · rw [if_pos held] at longer
      exact Nat.add_right_cancel longer
    · simpa [other] using longer
  all_goals
    rw [after]
    rcases entered with ⟨_, _, rfl, _⟩ | ⟨_, _, _, _, binding⟩
  · exact id
  · exact fun spaces => bind_spaces spaces binding
  · rfl
  · exact Exchange.bind_namespaces binding

theorem Totalled.subscribe (totalled : b.Totalled) {uid : SessionUid} {filter : String} {qos : QoS}
    {added : Bool} (done : b.subscribe uid filter qos = .ok (b', added)) : b'.Totalled := by
  have stats := subscribe_stats done
  obtain ⟨s, s', present, _, _, remains, window, _, _, sessions, spaces, _, standing⟩ :=
    totalled.subscribes done
  refine totalled.reformed present remains sessions (spaces totalled.spaces) standing
    (by rw [stats]) ?_
  rw [stats, inFlight, totalled.tally_same present sessions]
  · exact totalled.inflights
  · rw [Session.weight, Session.weight, remains.closed, window]

theorem Subscribed.subscribe (subscribed : b.Subscribed) (ordered : b.Ordered) {uid : SessionUid}
    {filter : String} {qos : QoS} {added : Bool}
    (done : b.subscribe uid filter qos = .ok (b', added)) : b'.Subscribed := by
  have routed := subscribed.routed.subscribe done
  have stats := subscribe_stats done
  obtain ⟨s, s', present, live, live', _, _, _, longer, sessions, _⟩ := ordered.subscribes done
  have changed : b'.subscribed + _ = b.subscribed + _ :=
    ordered.tally_live present sessions live live' rfl longer
  refine ⟨by simpa [reclaimed] using routed, ?_⟩
  rw [stats]
  cases added with
  | false =>
      have level : b'.subscribed = b.subscribed := by simpa using changed
      rw [level]
      exact subscribed.shown
  | true => exact subscribed.shown.increment (by simp only [Bool.toNat_true] at changed; omega)

theorem Reckoned.counts_subscribed (reckoned : b.Reckoned) {uid : SessionUid} {filter : String}
    {qos : QoS} {added : Bool} (done : b.subscribe uid filter qos = .ok (b', added)) :
    Counts b b' := by
  have stats := subscribe_stats done
  have totalled := reckoned.toTotalled.subscribe done
  obtain ⟨s, s', present, _, _, remains, _, grown, _, sessions, spaces, namespaces, standing⟩ :=
    reckoned.subscribes done
  have found := session?_inserted sessions
  refine ⟨reckoned.reformed present remains sessions (spaces reckoned.spaces) standing
    (by rw [stats]) (by rw [stats]) totalled.inflights, namespaces, ?_, ?_⟩
  · intro w x here
    rw [found]
    split
    · rename_i own
      rw [own, present] at here
      cases here
      exact ⟨s', rfl, grown⟩
    · exact ⟨x, here, fun _ => id⟩
  · exact fun _ subscribed => subscribed.subscribe reckoned.toOrdered done

/-! Sessions that go and come -/

theorem unbindAll_spaces {x : Exchange} (increasing : x.spaces.Increasing) (uid : SessionUid) :
    (x.unbindAll uid).1.spaces.Increasing := by
  refine increasing.of_keys ?_
  simp [Exchange.unbindAll, Table.keys, Function.comp_def]

theorem Reckoned.unbound (reckoned : b.Reckoned) {s : Session}
    (present : b.session? s.uid = some s) (live : s.closed = false)
    (apart : ∀ filter other, s.holds filter = true → s.holds other = true →
      ¬b.namespaces.Confuses filter other) (routed : b.Routed []) :
    (b.exchange.unbindAll s.uid).2 = s.info.subscriptions.length := by
  have held : ∀ filter, filter ∈ s.info.subscriptions.keys ↔ s.holds filter = true :=
    fun _ => Table.mem_keys
  have holds : ∀ filter, b.Holds s.uid filter ↔ filter ∈ s.info.subscriptions.keys := by
    intro filter
    rw [holds_iff present, held, live]
    simp
  have count : s.info.subscriptions.keys.length = s.info.subscriptions.length := by
    rw [Table.keys, List.length_map]
  have distinct := (reckoned.kempt _ _ present).filters.nodup
  rw [← count]
  refine Exchange.unbindAll_number routed.neat reckoned.spaces distinct ?_ ?_ ?_
  · intro filter member
    obtain ⟨_, parsed⟩ := routed.parsed s.uid filter ((holds filter).mpr member)
    exact Exchange.place_succeeds parsed
  · intro filter member other member' same
    by_contra different
    exact apart filter other ((held filter).mp member) ((held other).mp member') ⟨different, same⟩
  · intro p
    rw [routed.bound]
    simp only [holds]
    constructor
    · rintro ⟨filter, member, placed, _⟩
      exact ⟨filter, member, placed⟩
    · rintro ⟨filter, member, placed⟩
      exact ⟨filter, member, placed, fun divided => absurd divided.choose_spec.1 List.not_mem_nil⟩

theorem Rolled.destroy_idle (rolled : b.Rolled) {uid : SessionUid}
    (idle : ∀ s, b.session? uid = some s → s.closed = true) : (b.destroy uid).1 = b := by
  unfold destroy
  split
  · rfl
  · rename_i s present
    have closed := idle s present
    have unlisted : b.registry.get? s.info.id ≠ some uid := by
      intro entry
      obtain ⟨x, there, _, live⟩ := rolled.live _ _ entry
      rw [present] at there
      cases there
      rw [closed] at live
      cases live
    simp only [unlisted, if_false, closeSession, present, closed, if_true]

def without (b : Broker) (s : Session) : Broker :=
  { b with registry := b.registry.erase s.info.id,
           stats := { b.stats with sessions := b.stats.sessions.decrement } }

theorem Rolled.destroy_live (rolled : b.Rolled) {s : Session}
    (present : b.session? s.uid = some s) (live : s.closed = false) :
    (b.destroy s.uid).1 = ((b.without s).closeSession s.uid true).1 := by
  have entry := rolled.listed s.uid s present live
  simp only [destroy, present, entry, if_true]
  rfl

theorem Rolled.destroy_struck (rolled : b.Rolled) {s : Session}
    (present : b.session? s.uid = some s) (live : s.closed = false) :
    ∃ s', s'.uid = s.uid ∧ s'.info = s.info ∧ s'.closed = true ∧ (s.Kempt → s'.Kempt) ∧
      (b.destroy s.uid).1.sessions = b.sessions.insert s.uid s' ∧
      (b.destroy s.uid).1.standing =
        (b.registry.erase s.info.id, (b.exchange.unbindAll s.uid).1, b.nextUid, b.served, b.retain,
          b.stats.connections, b.stats.sessions.decrement,
          b.stats.subscriptions.subtract (b.exchange.unbindAll s.uid).2) ∧
      (b.destroy s.uid).1.stats.inflights =
        b.stats.inflights.subtract s.inflight.entries.length := by
  have here : (b.without s).session? s.uid = some s := present
  have stats := closeSession_stats here live
  obtain ⟨_, _, _, _, _, inflight, _, empty, after⟩ := closeSession_changes here live true
  have empty := empty rfl
  rw [rolled.destroy_live present live]
  refine ⟨{ s with closed := true, client := none, queues := none, inflight }, rfl, rfl, rfl,
    fun kempt => ⟨fun _ => ⟨rfl, empty⟩, Inflight.ordered_empty empty, kempt.filters⟩, ?_, ?_, ?_⟩
  · rw [after]
    rfl
  · rw [standing, stats, after]
    rfl
  · rw [stats]
    rfl

theorem Reckoned.counts_destroyed (reckoned : b.Reckoned) (uid : SessionUid) :
    Counts b (b.destroy uid).1 := by
  by_cases idle : ∀ s, b.session? uid = some s → s.closed = true
  · rw [reckoned.destroy_idle idle]
    exact .refl reckoned
  push Not at idle
  obtain ⟨s, present, live⟩ := idle
  have live : s.closed = false := by simpa using live
  obtain ⟨rfl, _⟩ := reckoned.own uid s present
  obtain ⟨s', uid, info, closed, kempt, sessions, standing, inflights⟩ :=
    reckoned.destroy_struck present live
  have routed : b.Routed [] → (b.destroy s.uid).1.Routed [] := by
    intro routed
    have own : ∀ uid x, (b.without s).session? uid = some x →
        x.uid = uid ∧ uid < (b.without s).nextUid := routed.own
    have unlisted : (b.without s).Routed [] := routed.unchanged own (fun _ _ => Iff.rfl) rfl
    rw [reckoned.destroy_live present live]
    exact unlisted.closeSession s.uid true
  generalize (b.destroy s.uid).1 = b' at sessions standing inflights routed ⊢
  simp only [Broker.standing, Prod.mk.injEq] at standing
  obtain ⟨registry, exchange, nextUid, served, retain, connections, registered, subscriptions⟩ :=
    standing
  have found := session?_inserted sessions
  have fewer : ∀ (f : Session → Nat) {n : Nat}, f s = n → b'.tally f + n = b.tally f := by
    intro f n counted
    have changed := reckoned.tally_changed present sessions f
    rwa [Session.weight_live live, Session.weight_gone closed, counted] at changed
  have spaces : b'.namespaces = b.namespaces := by
    rw [namespaces, exchange]
    rfl
  refine ⟨⟨reckoned.struck present live uid closed (kempt (reckoned.kempt _ _ present)) sessions
    registry nextUid, ?_, ?_, ?_, ?_, ?_, ?_⟩, spaces, ?_, ?_⟩
  · rw [exchange]
    exact unbindAll_spaces reckoned.spaces s.uid
  · rw [retain]
    exact reckoned.messages
  · rw [connections, served]
    exact reckoned.connections
  · rw [inflights]
    exact reckoned.inflights.subtract (fewer _ rfl)
  · rw [retain]
    exact reckoned.retained
  · rw [registered]
    exact reckoned.registered.decrement (fewer _ rfl)
  · intro w x here
    rw [found]
    split
    · rename_i same
      rw [same, present] at here
      cases here
      exact ⟨s', rfl, fun filter held => by rwa [Session.holds, info]⟩
    · exact ⟨x, here, fun _ => id⟩
  · intro unconfused subscribed
    have apart : ∀ filter other, s.holds filter = true → s.holds other = true →
        ¬b.namespaces.Confuses filter other := by
      intro filter other first second
      rw [← spaces]
      refine unconfused s.uid s' filter other (by rw [found, if_pos rfl]) ?_ ?_
      · rwa [Session.holds, info]
      · rwa [Session.holds, info]
    refine ⟨routed subscribed.routed, ?_⟩
    rw [subscriptions, reckoned.unbound present live apart subscribed.routed]
    exact subscribed.shown.subtract (fewer _ rfl)

theorem Reckoned.counts_created (reckoned : b.Reckoned) {id : String}
    (absent : b.find? id = none) (clean : Bool) : Counts b (b.create id clean).1 := by
  let s := Session.new b.nextUid { id, cleanSession := clean } b.settings.mqtt
  have kempt : s.Kempt := by
    refine ⟨fun gone => ?_, Inflight.ordered_empty rfl, List.Pairwise.nil⟩
    cases gone
  have unused : b.session? s.uid = none := session?_unused reckoned.own
  have sessions : (b.create id clean).1.sessions = b.sessions.insert s.uid s := rfl
  have more : ∀ f : Session → Nat, (b.create id clean).1.tally f = b.tally f + f s :=
    fun f => reckoned.tally_added unused sessions f
  have found := session?_inserted sessions
  refine ⟨⟨reckoned.entered (s := s) rfl rfl kempt absent sessions rfl rfl, reckoned.spaces,
    reckoned.messages, reckoned.connections, ?_, reckoned.retained,
    reckoned.registered.increment (more _)⟩, rfl, ?_, ?_⟩
  · rw [inFlight, more]
    exact reckoned.inflights
  · intro w x here
    rw [found, if_neg]
    · exact ⟨x, here, fun _ held => held⟩
    · rintro rfl
      rw [unused] at here
      cases here
  · intro _ subscribed
    refine ⟨subscribed.routed.create id clean, ?_⟩
    rw [Broker.subscribed, more]
    exact subscribed.shown

theorem Reckoned.counts_settled (reckoned : b.Reckoned) (c : Claim) :
    Counts b (b.settleClaim c).1 := by
  unfold settleClaim
  split
  · rename_i absent
    exact reckoned.counts_created absent c.clean
  · rename_i s found
    split
    · exact .refl reckoned
    · obtain ⟨uid, entry, present⟩ := Option.bind_eq_some_iff.mp found
      obtain ⟨rfl, _⟩ := reckoned.own uid s present
      obtain ⟨x, there, own, live⟩ := reckoned.live c.id s.uid entry
      rw [present] at there
      cases there
      obtain ⟨_, _, _, _, _, _, standing, _⟩ := reckoned.destroy_struck present live
      have destroyed := reckoned.counts_destroyed s.uid
      split
      · rename_i b' _ failed
        rw [failed] at destroyed
        exact destroyed
      · rename_i b' done
        rw [done] at destroyed standing
        have registry : b'.registry = b.registry.erase s.info.id := congrArg Prod.fst standing
        have absent : b'.find? c.id = none := by
          rw [find?, registry, own, Table.get?_erase, if_pos rfl]
          rfl
        exact destroyed.trans fun reckoned' => reckoned'.counts_created absent c.clean

/-! Retained messages, and connections -/

theorem Reckoned.counts_kept (reckoned : b.Reckoned) (p : Publish) : Counts b (b.keep p) := by
  obtain ⟨increasing, shown⟩ := RetainStore.set_gauge reckoned.messages reckoned.retained b.storage p
  unfold keep
  split
  · generalize b.retain.set b.storage p = kept at increasing shown
    obtain ⟨retain, outcome⟩ := kept
    cases outcome <;>
      exact reckoned.counts_aside rfl rfl rfl rfl rfl rfl rfl reckoned.connections increasing shown
  · exact .refl reckoned

theorem Reckoned.counts_enlisted (reckoned : b.Reckoned) (conn : ConnectionId) :
    Counts b (b.enlist conn) :=
  reckoned.counts_aside rfl rfl rfl rfl rfl rfl rfl
    (reckoned.connections.increment (by simp [enlist])) reckoned.messages reckoned.retained

theorem Reckoned.counts_dismissed (reckoned : b.Reckoned) (c : Served) :
    Counts b (b.dismiss c) := by
  unfold dismiss
  split
  · rename_i there
    have fewer := List.length_erase_add_one (by simpa using there)
    exact reckoned.counts_aside rfl rfl rfl rfl rfl rfl rfl (reckoned.connections.decrement fewer)
      reckoned.messages reckoned.retained
  · exact .refl reckoned

theorem Deed.counts (reckoned : b.Reckoned) (deed : Deed b b') : Counts b b' := by
  cases deed with
  | aside same => exact reckoned.counts_counted same
  | used s' present serves => exact reckoned.counts_used present serves
  | delivered d present drains weighs => exact reckoned.counts_delivered present drains weighs
  | acknowledged uid id => exact reckoned.counts_acknowledged uid id
  | subscribed done => exact reckoned.counts_subscribed done
  | settled c => exact reckoned.counts_settled c
  | destroyed uid => exact reckoned.counts_destroyed uid
  | kept p => exact reckoned.counts_kept p
  | enlisted conn => exact reckoned.counts_enlisted conn
  | dismissed c => exact reckoned.counts_dismissed c

end Broker

end MqttBroker
