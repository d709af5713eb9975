import MqttBroker.Proofs.Naming
import MqttBroker.Proofs.Rebinding

/-!
The sessions of a broker as they come, change and go. The registry, the exchange and the names of
buckets are kept in step with the sessions that are open.
-/

namespace MqttBroker

structure StoredQueue.Drained {τ : Type} (q q' : StoredQueue τ) : Prop where
  handle : q'.handle = q.handle
  closed : q'.queue.closed = q.queue.closed
  unstored : q'.queue.unstored = q.queue.unstored
  reading : q'.queue.reading = q.queue.reading
  outbox : q'.queue.outbox ⊆ q.queue.outbox

structure Session.Used (s s' : Session) : Prop where
  uid : s'.uid = s.uid
  id : s'.info.id = s.info.id
  subscriptions : s'.info.subscriptions = s.info.subscriptions
  closed : s'.closed = s.closed
  client : s.closed = true → s'.client = s.client
  queues : s'.queues.isSome = s.queues.isSome
  drained : ∀ q q', s.queues = some q → s'.queues = some q' → q.durable.Drained q'.durable
  window : s.queues = none → s.inflight.entries = [] → s'.inflight.entries = []

theorem Session.isSubscribed_of_holds {s : Session} {filter : String}
    (held : s.holds filter = true) : s.isSubscribed = true := by
  cases none : s.info.subscriptions with
  | nil =>
      rw [holds, none] at held
      cases held
  | cons entry rest => simp [isSubscribed, none]

theorem Session.bucketName_injective {id other : String}
    (same : bucketName id = bucketName other) : id = other := by
  have lists := congrArg String.toList same
  simp only [bucketName, String.toList_append] at lists
  exact String.toList_inj.mp (List.append_cancel_left lists)

namespace Broker

/-- One session has changed, and perhaps the bucket of its own. -/
structure Reforms (b b' : Broker) (s s' : Session) : Prop where
  present : b.session? s.uid = some s
  found : ∀ w, b'.session? w = if w = s.uid then some s' else b.session? w
  uid : s'.uid = s.uid
  id : s'.info.id = s.info.id
  access : b'.access = b.access
  nextUid : b'.nextUid = b.nextUid
  shuttingDown : b'.shuttingDown = b.shuttingDown
  named : b.storage.Named → b'.storage.Named
  spares : b'.storage.names = b.storage.names ∧ b'.storage.buckets = b.storage.buckets ∨
    s.closed = false ∧ b.storage.Local (Session.bucketName s.info.id) b'.storage
  owned : ∀ q, s'.queues = some q →
    s'.closed = false ∧ q.durable.Owns b'.storage (Session.bucketName s.info.id)

/-- A broker whose sessions agree with its registry, its exchange and its storage. The loose
sessions need not be registered. -/
structure Orderly (b : Broker) (loose : List SessionUid := []) : Prop where
  routed : ∃ dropped, b.Routed dropped
  live : ∀ id uid, b.registry.get? id = some uid →
    ∃ s, b.session? uid = some s ∧ s.info.id = id ∧ s.closed = false
  listed : ∀ uid s, b.session? uid = some s → s.closed = false → uid ∉ loose →
    b.registry.get? s.info.id = some uid
  alone : ∀ uid other s x, b.session? uid = some s → b.session? other = some x →
    s.closed = false → x.closed = false → s.info.id = x.info.id → uid = other
  gone : ∀ uid s, b.session? uid = some s → s.closed = true → s.client = none
  supplied : ∀ uid s, b.session? uid = some s → s.closed = false →
    s.queues.isSome = s.isSubscribed
  named : b.storage.Named
  owned : ∀ uid s q, b.session? uid = some s → s.queues = some q →
    s.closed = false ∧ q.durable.Owns b.storage (Session.bucketName s.info.id)

theorem Reforms.names_elsewhere {b b' : Broker} {s s' : Session} (reforms : Reforms b b' s s')
    {id : String} (apart : s.info.id ≠ id) :
    b'.storage.names.get? (Session.bucketName id) =
      b.storage.names.get? (Session.bucketName id) := by
  rcases reforms.spares with ⟨names, _⟩ | ⟨_, elsewhere⟩
  · rw [names]
  · exact elsewhere.names _ fun same => apart (Session.bucketName_injective same).symm

theorem Reforms.elsewhere {b b' : Broker} {s s' : Session} (reforms : Reforms b b' s s')
    {loose : List SessionUid} (orderly : b.Orderly loose) {w : SessionUid} {x : Session}
    (other : w ≠ s.uid) (present : b.session? w = some x) (live : x.closed = false) :
    b'.storage.names.get? (Session.bucketName x.info.id) =
        b.storage.names.get? (Session.bucketName x.info.id) ∧
      ∀ h bucket, b.storage.find? h = some bucket →
        bucket.name = Session.bucketName x.info.id → b'.storage.find? h = some bucket := by
  rcases reforms.spares with ⟨names, buckets⟩ | ⟨opened, elsewhere⟩
  · refine ⟨by rw [names], fun h bucket found _ => ?_⟩
    rw [Storage.Memory.find?, buckets]
    exact found
  · have apart : Session.bucketName x.info.id ≠ Session.bucketName s.info.id := by
      intro same
      exact other (orderly.alone w s.uid x s present reforms.present live opened
        (Session.bucketName_injective same))
    refine ⟨elsewhere.names _ apart, fun h bucket found own => ?_⟩
    exact elsewhere.buckets h bucket found (own ▸ apart)

theorem Reforms.owned_elsewhere {b b' : Broker} {s s' : Session} (reforms : Reforms b b' s s')
    {loose : List SessionUid} (orderly : b.Orderly loose) (w : SessionUid) (x : Session)
    (q : SessionQueues) (present : b'.session? w = some x) (queued : x.queues = some q) :
    x.closed = false ∧ q.durable.Owns b'.storage (Session.bucketName x.info.id) := by
  rw [reforms.found] at present
  split at present
  · cases present
    rw [reforms.id]
    exact reforms.owned q queued
  · rename_i other
    obtain ⟨live, opened, owns⟩ := orderly.owned w x q present queued
    have names := (reforms.elsewhere orderly other present live).1
    exact ⟨live, opened, names.trans owns⟩

theorem Orderly.reformed {b b' : Broker} {loose : List SessionUid} (orderly : b.Orderly loose)
    {s s' : Session} (reforms : Reforms b b' s s') (closed : s'.closed = s.closed)
    (client : s.closed = true → s'.client = s.client)
    (supplied : s'.closed = false → s'.queues.isSome = s'.isSubscribed)
    (registry : b'.registry = b.registry) (routed : ∃ dropped, b'.Routed dropped) :
    b'.Orderly loose := by
  have before : ∀ w x, b'.session? w = some x → ∃ y, b.session? w = some y ∧
      x.info.id = y.info.id ∧ x.closed = y.closed ∧ (y.closed = true → x.client = y.client) := by
    intro w x present
    rw [reforms.found] at present
    split at present
    · rename_i same
      cases present
      exact ⟨s, same ▸ reforms.present, reforms.id, closed, client⟩
    · exact ⟨x, present, rfl, rfl, fun _ => rfl⟩
  constructor
  case routed => exact routed
  case live =>
    intro id uid entry
    rw [registry] at entry
    obtain ⟨x, present, own, live⟩ := orderly.live id uid entry
    rw [reforms.found]
    split
    · rename_i same
      rw [same, reforms.present] at present
      cases present
      exact ⟨s', rfl, reforms.id.trans own, closed.trans live⟩
    · exact ⟨x, present, own, live⟩
  case listed =>
    intro uid x present live bound
    obtain ⟨y, there, id, same, _⟩ := before uid x present
    rw [registry, id]
    exact orderly.listed uid y there (same ▸ live) bound
  case alone =>
    intro uid other x x' present present' live live' same
    obtain ⟨y, there, id, closed, _⟩ := before uid x present
    obtain ⟨y', there', id', closed', _⟩ := before other x' present'
    exact orderly.alone uid other y y' there there' (closed ▸ live) (closed' ▸ live')
      (id.symm.trans (same.trans id'))
  case gone =>
    intro uid x present closed
    obtain ⟨y, there, _, same, client⟩ := before uid x present
    rw [client (same ▸ closed)]
    exact orderly.gone uid y there (same ▸ closed)
  case supplied =>
    intro uid x present live
    rw [reforms.found] at present
    split at present
    · cases present
      exact supplied live
    · exact orderly.supplied uid x present live
  case named => exact reforms.named orderly.named
  case owned => exact reforms.owned_elsewhere orderly

theorem Orderly.closed {b b' : Broker} {loose : List SessionUid} {s s' : Session}
    (orderly : b.Orderly (s.uid :: loose)) (reforms : Reforms b b' s s')
    (closed : s'.closed = true) (client : s'.client = none) (registry : b'.registry = b.registry)
    (absent : ∀ id, b.registry.get? id ≠ some s.uid) (routed : ∃ dropped, b'.Routed dropped) :
    b'.Orderly loose := by
  have before : ∀ w x, b'.session? w = some x → x.closed = false →
      w ≠ s.uid ∧ b.session? w = some x := by
    intro w x present live
    rw [reforms.found] at present
    split at present
    · cases present
      rw [closed] at live
      cases live
    · rename_i other
      exact ⟨other, present⟩
  constructor
  case routed => exact routed
  case live =>
    intro id uid entry
    rw [registry] at entry
    obtain ⟨x, present, own, live⟩ := orderly.live id uid entry
    have other : uid ≠ s.uid := fun same => absent id (same ▸ entry)
    exact ⟨x, by rw [reforms.found, if_neg other]; exact present, own, live⟩
  case listed =>
    intro uid x present live bound
    obtain ⟨other, there⟩ := before uid x present live
    rw [registry]
    refine orderly.listed uid x there live fun member => ?_
    rcases List.mem_cons.mp member with same | late
    · exact other same
    · exact bound late
  case alone =>
    intro uid other x x' present present' live live' same
    exact orderly.alone uid other x x' (before uid x present live).2
      (before other x' present' live').2 live live' same
  case gone =>
    intro uid x present gone
    rw [reforms.found] at present
    split at present
    · cases present
      exact client
    · exact orderly.gone uid x present gone
  case supplied =>
    intro uid x present live
    exact orderly.supplied uid x (before uid x present live).2 live
  case named => exact reforms.named orderly.named
  case owned => exact reforms.owned_elsewhere orderly

/-! What the operations reform -/

theorem reforms_put {b b' : Broker} {s s' : Session} (present : b.session? s.uid = some s)
    (sessions : b'.sessions = b.sessions.insert s'.uid s') (access : b'.access = b.access)
    (nextUid : b'.nextUid = b.nextUid) (shuttingDown : b'.shuttingDown = b.shuttingDown)
    (uid : s'.uid = s.uid) (id : s'.info.id = s.info.id)
    (named : b.storage.Named → b'.storage.Named)
    (spares : b'.storage.names = b.storage.names ∧ b'.storage.buckets = b.storage.buckets ∨
      s.closed = false ∧ b.storage.Local (Session.bucketName s.info.id) b'.storage)
    (owned : ∀ q, s'.queues = some q →
      s'.closed = false ∧ q.durable.Owns b'.storage (Session.bucketName s.info.id)) :
    Reforms b b' s s' where
  present := present
  found w := by
    rw [session?, sessions, uid, Table.get?_insert]
    rfl
  uid := uid
  id := id
  access := access
  nextUid := nextUid
  shuttingDown := shuttingDown
  named := named
  spares := spares
  owned := owned

theorem reforms_kept {b b' : Broker} {s s' : Session} (present : b.session? s.uid = some s)
    (sessions : b'.sessions = b.sessions.insert s'.uid s') (access : b'.access = b.access)
    (nextUid : b'.nextUid = b.nextUid) (shuttingDown : b'.shuttingDown = b.shuttingDown)
    (uid : s'.uid = s.uid) (id : s'.info.id = s.info.id) (storage : b'.storage = b.storage)
    (owned : ∀ q, s'.queues = some q →
      s'.closed = false ∧ q.durable.Owns b.storage (Session.bucketName s.info.id)) :
    Reforms b b' s s' :=
  reforms_put present sessions access nextUid shuttingDown uid id (fun named => storage ▸ named)
    (Or.inl ⟨by rw [storage], by rw [storage]⟩) (storage ▸ owned)

theorem Orderly.own {b : Broker} {loose : List SessionUid} (orderly : b.Orderly loose)
    {uid : SessionUid} {s : Session} (present : b.session? uid = some s) :
    s.uid = uid ∧ uid < b.nextUid := by
  obtain ⟨dropped, routed⟩ := orderly.routed
  exact routed.own uid s present

theorem Orderly.routed_put {b b' : Broker} {loose : List SessionUid} (orderly : b.Orderly loose)
    {s s' : Session} (reforms : Reforms b b' s s') (closed : s'.closed = s.closed)
    (subscriptions : s'.info.subscriptions = s.info.subscriptions)
    (exchange : b'.exchange = b.exchange) : ∃ dropped, b'.Routed dropped := by
  obtain ⟨dropped, routed⟩ := orderly.routed
  have own := own_changed reforms.present routed.own reforms.found reforms.uid reforms.nextUid
  refine ⟨dropped, routed.unchanged own (fun w g => ?_) exchange⟩
  rw [holds_changed reforms.found]
  by_cases same : w = s.uid
  · subst same
    rw [holds_iff reforms.present]
    simp [Session.holds, subscriptions, closed]
  · simp [same]

theorem Orderly.reforms_used {b : Broker} {loose : List SessionUid} (orderly : b.Orderly loose)
    {s s' : Session} (present : b.session? s.uid = some s) (used : s.Used s') :
    Reforms b (b.putSession s') s s' := by
  refine reforms_kept present rfl rfl rfl rfl used.uid used.id rfl ?_
  intro q' queued'
  obtain ⟨q, queued⟩ := Option.isSome_iff_exists.mp
    (used.queues.symm.trans (congrArg Option.isSome queued'))
  obtain ⟨live, opened, owns⟩ := orderly.owned s.uid s q present queued
  have drained := used.drained q q' queued queued'
  exact ⟨used.closed.trans live, drained.closed.trans opened, by rw [drained.handle]; exact owns⟩

theorem Orderly.used {b : Broker} {loose : List SessionUid} (orderly : b.Orderly loose)
    {s s' : Session} (present : b.session? s.uid = some s) (used : s.Used s') :
    (b.putSession s').Orderly loose := by
  have reforms := orderly.reforms_used present used
  refine orderly.reformed reforms used.closed used.client (fun live => ?_) rfl
    (orderly.routed_put reforms used.closed used.subscriptions rfl)
  rw [used.queues, Session.isSubscribed, used.subscriptions]
  exact orderly.supplied s.uid s present (used.closed.symm.trans live)

theorem Orderly.reforms_queued {b : Broker} {loose : List SessionUid} (orderly : b.Orderly loose)
    {s : Session} (present : b.session? s.uid = some s) {q : SessionQueues}
    (queued : s.queues = some q) {event : EventId} {p : Publish} {durable : StoredQueue EventId}
    (pushed : q.durable.push event p = some durable) :
    Reforms b (b.putSession { s with queues := some { q with durable } }) s
      { s with queues := some { q with durable } } := by
  obtain ⟨queue, accepted, rfl⟩ := Option.map_eq_some_iff.mp pushed
  obtain ⟨live, opened, owns⟩ := orderly.owned s.uid s q present queued
  refine reforms_kept present rfl rfl rfl rfl rfl rfl rfl ?_
  intro q' same
  cases same
  exact ⟨live, (DurableQueue.push_tickets accepted).2.trans opened, owns⟩

theorem Orderly.queued {b : Broker} {loose : List SessionUid} (orderly : b.Orderly loose)
    {s : Session} (present : b.session? s.uid = some s) {q : SessionQueues}
    (queued : s.queues = some q) {event : EventId} {p : Publish} {durable : StoredQueue EventId}
    (pushed : q.durable.push event p = some durable) :
    (b.putSession { s with queues := some { q with durable } }).Orderly loose := by
  have reforms := orderly.reforms_queued present queued pushed
  refine orderly.reformed reforms rfl (fun _ => rfl) (fun live => ?_) rfl
    (orderly.routed_put reforms rfl rfl rfl)
  have subscribed := orderly.supplied s.uid s present live
  rw [queued] at subscribed
  exact subscribed

theorem Orderly.reforms_turns {b : Broker} {loose : List SessionUid} (orderly : b.Orderly loose)
    (uid : SessionUid) (activities : List DurableQueue.Activity) :
    b.turns uid activities = b ∨ ∃ s q work, b.session? uid = some s ∧ s.queues = some q ∧
      work = q.durable.turns b.storage activities ∧
      (b.turns uid activities).storage = work.memory ∧
      (b.turns uid activities).registry = b.registry ∧
      (b.turns uid activities).exchange = b.exchange ∧
      Reforms b (b.turns uid activities) s
        { s with queues := some { q with durable := work.queue } } := by
  unfold Broker.turns withQueue
  split
  · exact Or.inl rfl
  · rename_i s present
    split
    · exact Or.inl rfl
    · rename_i q queued
      obtain ⟨rfl, _⟩ := orderly.own present
      obtain ⟨live, owns⟩ := orderly.owned s.uid s q present queued
      obtain ⟨named, elsewhere, owns'⟩ := StoredQueue.turns_owns owns orderly.named activities
      dsimp only
      generalize work : q.durable.turns b.storage activities = w at named elsewhere owns' ⊢
      obtain ⟨reported, connections, frame⟩ := doneAll_frame
        (({ b with storage := w.memory } : Broker).putSession
          { s with queues := some { q with durable := w.queue } }) (w.done ++ w.refused)
      rw [frame]
      refine Or.inr ⟨s, q, w, present, queued, work.symm, rfl, rfl, rfl, ?_⟩
      refine reforms_put present rfl rfl rfl rfl rfl rfl (fun _ => named)
        (Or.inr ⟨live, elsewhere⟩) ?_
      intro q' same
      cases same
      exact ⟨live, owns'⟩

theorem Orderly.turns {b : Broker} {loose : List SessionUid} (orderly : b.Orderly loose)
    (uid : SessionUid) (activities : List DurableQueue.Activity) :
    (b.turns uid activities).Orderly loose := by
  rcases orderly.reforms_turns uid activities with
    same | ⟨s, q, work, present, queued, _, _, registry, exchange, reforms⟩
  · exact same.symm ▸ orderly
  · refine orderly.reformed reforms rfl (fun _ => rfl) (fun live => ?_) registry
      (orderly.routed_put reforms rfl rfl exchange)
    have subscribed := orderly.supplied s.uid s reforms.present live
    rw [queued] at subscribed
    exact subscribed

theorem Orderly.reforms_subscribe {b b' : Broker} {loose : List SessionUid}
    (orderly : b.Orderly loose) {uid : SessionUid} {filter : String} {qos : QoS} {added : Bool}
    (done : b.subscribe uid filter qos = .ok (b', added)) :
    ∃ s s', b.session? uid = some s ∧ s.closed = false ∧ b.Provided s b'.storage s'.queues ∧
      s'.closed = s.closed ∧ s'.info = { s.info with
        subscriptions := s.info.subscriptions.insert filter qos } ∧
      b'.registry = b.registry ∧ Reforms b b' s s' := by
  obtain ⟨topic, s, storage, exchange, stats, queues, matcher, _, present, live, provided, _,
    rfl⟩ := subscribe_changes done
  obtain ⟨rfl, _⟩ := orderly.own present
  refine ⟨s, { s with queues, matcher, info := { s.info with
    subscriptions := s.info.subscriptions.insert filter qos } }, present, live, provided, rfl, rfl,
    rfl, ?_⟩
  cases provided with
  | before subscribed =>
      exact reforms_kept present rfl rfl rfl rfl rfl rfl rfl
        fun q queued => orderly.owned s.uid s q present queued
  | now unsubscribed opened =>
      obtain ⟨named, elsewhere, held⟩ := orderly.named.bucket opened
      refine reforms_put present rfl rfl rfl rfl rfl rfl (fun _ => named)
        (Or.inr ⟨live, elsewhere⟩) ?_
      intro q same
      cases same
      exact ⟨live, rfl, held⟩

theorem Orderly.provided_isSome {b : Broker} {loose : List SessionUid} (orderly : b.Orderly loose)
    {s : Session} (present : b.session? s.uid = some s) (live : s.closed = false)
    {storage : Storage.Memory} {queues : Option SessionQueues}
    (provided : b.Provided s storage queues) : queues.isSome = true := by
  cases provided with
  | before had => exact (orderly.supplied s.uid s present live).trans had
  | now _ _ => rfl

theorem Orderly.subscribe {b b' : Broker} {loose : List SessionUid} (orderly : b.Orderly loose)
    {uid : SessionUid} {filter : String} {qos : QoS} {added : Bool}
    (done : b.subscribe uid filter qos = .ok (b', added)) : b'.Orderly loose := by
  obtain ⟨s, s', _, live, provided, closed, info, registry, reforms⟩ :=
    orderly.reforms_subscribe done
  obtain ⟨dropped, routed⟩ := orderly.routed
  refine orderly.reformed reforms closed (fun gone => ?_) (fun _ => ?_) registry
    ⟨_, routed.subscribe done⟩
  · rw [live] at gone
    cases gone
  · have subscribed : s'.isSubscribed = true := by
      have nonempty := Table.insert_ne_nil filter qos s.info.subscriptions
      simpa [Session.isSubscribed, info] using nonempty
    rw [subscribed]
    exact orderly.provided_isSome reforms.present live provided

theorem Orderly.storageWithout {b : Broker} {loose : List SessionUid} (orderly : b.Orderly loose)
    {s : Session} (present : b.session? s.uid = some s) (cleanup : Bool) :
    (b.storageWithout s cleanup).Named ∧
      (b.storageWithout s cleanup = b.storage ∧ s.queues = none ∨
        s.closed = false ∧ s.queues.isSome = true ∧
          b.storage.Local (Session.bucketName s.info.id) (b.storageWithout s cleanup) ∧
          (cleanup = true → (b.storageWithout s cleanup).names.get?
            (Session.bucketName s.info.id) = none)) := by
  unfold Broker.storageWithout
  cases queued : s.queues with
  | none => exact ⟨orderly.named, Or.inl ⟨rfl, rfl⟩⟩
  | some q =>
      obtain ⟨live, owns⟩ := orderly.owned s.uid s q present queued
      obtain ⟨named, elsewhere, free⟩ := StoredQueue.close_local owns orderly.named b.clock cleanup
      exact ⟨named, Or.inr ⟨live, rfl, elsewhere, free⟩⟩

theorem Orderly.reforms_without {b b' : Broker} {loose : List SessionUid}
    (orderly : b.Orderly loose) {s s' : Session} (present : b.session? s.uid = some s)
    (cleanup : Bool) (sessions : b'.sessions = b.sessions.insert s'.uid s')
    (access : b'.access = b.access) (nextUid : b'.nextUid = b.nextUid)
    (shuttingDown : b'.shuttingDown = b.shuttingDown)
    (uid : s'.uid = s.uid) (id : s'.info.id = s.info.id) (queues : s'.queues = none)
    {entries : Table String Bytes}
    (storage : b'.storage = { b.storageWithout s cleanup with entries }) : Reforms b b' s s' := by
  obtain ⟨named, without⟩ := orderly.storageWithout present cleanup
  refine reforms_put present sessions access nextUid shuttingDown uid id (fun _ => ?_) ?_ ?_
  · rw [storage]
    exact named.of_eq rfl rfl rfl
  · rw [storage]
    rcases without with ⟨same, _⟩ | ⟨live, _, elsewhere, _⟩
    · exact Or.inl ⟨by rw [same], by rw [same]⟩
    · exact Or.inr ⟨live, elsewhere.trans (.of_eq rfl rfl)⟩
  · intro q queued
    rw [queues] at queued
    cases queued

theorem Orderly.reforms_unsubscribe {b b' : Broker} {loose : List SessionUid}
    (orderly : b.Orderly loose) {uid : SessionUid} {filter : String} {removed : Bool}
    (done : b.unsubscribe uid filter = .ok (b', removed)) :
    b' = b ∨ ∃ s s', b.session? uid = some s ∧ s'.closed = s.closed ∧ s'.client = s.client ∧
      s.holds filter = true ∧
      s'.info = { s.info with subscriptions := s.info.subscriptions.erase filter } ∧
      (s'.isSubscribed = true ∧ s'.queues = s.queues ∧ b'.storage = b.storage ∨
        s'.isSubscribed = false ∧ s'.queues = none ∧ b'.storage = b.storageWithout s true) ∧
      (s.inflight.entries = [] → s'.inflight.entries = []) ∧
      b'.registry = b.registry ∧ Reforms b b' s s' := by
  obtain ⟨same, _, _⟩ | ⟨s, subscriptions, exchange, bound, storage, events, reported, connections,
    stats, queues, inflight, matcher, present, held, _, rfl, _, emptied, window, _, rfl⟩ :=
    unsubscribe_changes done
  · exact Or.inl same
  · obtain ⟨rfl, _⟩ := orderly.own present
    refine Or.inr ⟨s, { s with queues, inflight, matcher, info := { s.info with
      subscriptions := s.info.subscriptions.erase filter } }, present, rfl, rfl, held, rfl, ?_,
      window, rfl, ?_⟩
    · rcases emptied with ⟨more, stored, kept⟩ | ⟨last, stored, none⟩
      · exact Or.inl ⟨by simpa [Session.isSubscribed] using more, kept, stored⟩
      · exact Or.inr ⟨by simpa [Session.isSubscribed] using last, none, stored⟩
    · rcases emptied with ⟨_, rfl, rfl⟩ | ⟨_, rfl, rfl⟩
      · exact reforms_kept present rfl rfl rfl rfl rfl rfl rfl
          fun q queued => orderly.owned s.uid s q present queued
      · exact orderly.reforms_without present true rfl rfl rfl rfl rfl rfl rfl rfl

theorem Orderly.unsubscribe {b b' : Broker} {loose : List SessionUid} (orderly : b.Orderly loose)
    {uid : SessionUid} {filter : String} {removed : Bool}
    (done : b.unsubscribe uid filter = .ok (b', removed)) : b'.Orderly loose := by
  rcases orderly.reforms_unsubscribe done with
    rfl | ⟨s, s', _, closed, client, held, _, emptied, _, registry, reforms⟩
  · exact orderly
  · obtain ⟨dropped, routed⟩ := orderly.routed
    refine orderly.reformed reforms closed (fun _ => client) (fun live => ?_) registry
      ⟨_, routed.unsubscribe done⟩
    rcases emptied with ⟨subscribed, queues, _⟩ | ⟨unsubscribed, queues, _⟩
    · rw [subscribed, queues, orderly.supplied s.uid s reforms.present (closed ▸ live)]
      exact Session.isSubscribed_of_holds held
    · rw [unsubscribed, queues]
      rfl

theorem Orderly.reforms_closeSession {b : Broker} {loose : List SessionUid}
    (orderly : b.Orderly loose) {s : Session} (present : b.session? s.uid = some s)
    (live : s.closed = false) (cleanup : Bool) :
    ∃ s' entries, s'.closed = true ∧ s'.client = none ∧ s'.queues = none ∧ s'.info = s.info ∧
      (cleanup = true → s'.inflight.entries = []) ∧
      (b.closeSession s.uid cleanup).1.storage = { b.storageWithout s cleanup with entries } ∧
      (b.closeSession s.uid cleanup).1.registry = b.registry ∧
      Reforms b (b.closeSession s.uid cleanup).1 s s' := by
  obtain ⟨entries, events, reported, connections, stats, inflight, _, window, after⟩ :=
    closeSession_changes present live cleanup
  rw [after]
  refine ⟨{ s with closed := true, client := none, queues := none, inflight }, entries, rfl, rfl,
    rfl, rfl, window, rfl, rfl, ?_⟩
  exact orderly.reforms_without present cleanup rfl rfl rfl rfl rfl rfl rfl rfl

theorem closeSession_closed {b : Broker} {uid : SessionUid}
    (closed : ∀ s, b.session? uid = some s → s.closed = true) (cleanup : Bool) :
    b.closeSession uid cleanup = (b, .ok ()) := by
  unfold closeSession
  split
  · rfl
  · rename_i s present
    rw [if_pos (closed s present)]

theorem closeSession_cases (b : Broker) (uid : SessionUid) (cleanup : Bool) :
    (∀ s, b.session? uid = some s → s.closed = true) ∧
        b.closeSession uid cleanup = (b, .ok ()) ∨
      ∃ s, b.session? uid = some s ∧ s.closed = false := by
  by_cases closed : ∀ s, b.session? uid = some s → s.closed = true
  · exact Or.inl ⟨closed, closeSession_closed closed cleanup⟩
  · simpa only [not_forall, Bool.not_eq_true, exists_prop] using Or.inr closed

theorem Orderly.closeSession {b : Broker} {loose : List SessionUid} {uid : SessionUid}
    (orderly : b.Orderly (uid :: loose)) (absent : ∀ id, b.registry.get? id ≠ some uid)
    (cleanup : Bool) : (b.closeSession uid cleanup).1.Orderly loose := by
  rcases b.closeSession_cases uid cleanup with ⟨closed, same⟩ | ⟨s, present, live⟩
  · rw [same]
    refine { orderly with listed := fun other s present live bound => ?_ }
    refine orderly.listed other s present live fun member => ?_
    rcases List.mem_cons.mp member with rfl | late
    · rw [closed s present] at live
      cases live
    · exact bound late
  · obtain ⟨rfl, _⟩ := orderly.own present
    obtain ⟨s', entries, closed', client, _, _, _, _, registry, reforms⟩ :=
      orderly.reforms_closeSession present live cleanup
    obtain ⟨dropped, routed⟩ := orderly.routed
    exact orderly.closed reforms closed' client registry absent ⟨_, routed.closeSession ..⟩

/-! Sessions come and go -/

theorem session?_added {b b' : Broker} {s : Session}
    (found : ∀ w, b'.session? w = if w = b.nextUid then some s else b.session? w)
    {w : SessionUid} {x : Session} (present : b'.session? w = some x) :
    w = b.nextUid ∧ x = s ∨ b.session? w = some x := by
  rw [found] at present
  split at present
  · rename_i new
    cases present
    exact Or.inl ⟨new, rfl⟩
  · exact Or.inr present

theorem Orderly.added_routed {b b' : Broker} {loose : List SessionUid} (orderly : b.Orderly loose)
    {s : Session} (uid : s.uid = b.nextUid) (unsubscribed : s.info.subscriptions = [])
    (found : ∀ w, b'.session? w = if w = b.nextUid then some s else b.session? w)
    (nextUid : b'.nextUid = b.nextUid + 1) (exchange : b'.exchange = b.exchange) :
    ∃ dropped, b'.Routed dropped := by
  obtain ⟨dropped, routed⟩ := orderly.routed
  refine ⟨dropped, routed.unchanged (fun w x present => ?_) (fun w filter => ?_) exchange⟩
  · rw [nextUid]
    rcases session?_added found present with ⟨rfl, rfl⟩ | old
    · exact ⟨uid, Nat.lt_succ_self _⟩
    · exact ⟨(orderly.own old).1, Nat.lt_succ_of_lt (orderly.own old).2⟩
  · unfold Holds
    rw [found]
    split
    · rename_i new
      subst new
      simp [session?_unused routed.own, Session.holds, unsubscribed, Table.contains, Table.get?]
    · rfl

theorem Orderly.added_alone {b b' : Broker} {loose : List SessionUid} (orderly : b.Orderly loose)
    {s : Session}
    (only : ∀ other x, b.session? other = some x → x.closed = false → x.info.id ≠ s.info.id)
    (found : ∀ w, b'.session? w = if w = b.nextUid then some s else b.session? w)
    {w other : SessionUid} {x y : Session} (present : b'.session? w = some x)
    (present' : b'.session? other = some y) (opened : x.closed = false) (opened' : y.closed = false)
    (same : x.info.id = y.info.id) : w = other := by
  rcases session?_added found present with ⟨rfl, rfl⟩ | old
  · rcases session?_added found present' with ⟨rfl, rfl⟩ | old'
    · rfl
    · exact absurd same.symm (only other y old' opened')
  · rcases session?_added found present' with ⟨rfl, rfl⟩ | old'
    · exact absurd same (only w x old opened)
    · exact orderly.alone w other x y old old' opened opened' same

theorem Orderly.added {b b' : Broker} {loose : List SessionUid} (orderly : b.Orderly loose)
    {s : Session} (uid : s.uid = b.nextUid) (live : s.closed = false) (idle : s.queues = none)
    (unsubscribed : s.info.subscriptions = [])
    (only : ∀ other x, b.session? other = some x → x.closed = false → x.info.id ≠ s.info.id)
    (found : ∀ w, b'.session? w = if w = b.nextUid then some s else b.session? w)
    (nextUid : b'.nextUid = b.nextUid + 1) (registry : b'.registry = b.registry)
    (exchange : b'.exchange = b.exchange) (storage : b'.storage = b.storage) :
    b'.Orderly (s.uid :: loose) where
  routed := orderly.added_routed uid unsubscribed found nextUid exchange
  live id w entry := by
    rw [registry] at entry
    obtain ⟨x, present, rest⟩ := orderly.live id w entry
    refine ⟨x, ?_, rest⟩
    rw [found, if_neg (Nat.ne_of_lt (orderly.own present).2)]
    exact present
  listed w x present live bound := by
    rw [registry]
    rcases session?_added found present with ⟨rfl, rfl⟩ | old
    · exact absurd (List.mem_cons.mpr (Or.inl uid.symm)) bound
    · exact orderly.listed w x old live fun member => bound (List.mem_cons_of_mem _ member)
  alone _ _ _ _ present present' := orderly.added_alone only found present present'
  gone w x present closed := by
    rcases session?_added found present with ⟨rfl, rfl⟩ | old
    · rw [live] at closed
      cases closed
    · exact orderly.gone w x old closed
  supplied w x present live := by
    rcases session?_added found present with ⟨rfl, rfl⟩ | old
    · simp [idle, Session.isSubscribed, unsubscribed]
    · exact orderly.supplied w x old live
  named := storage ▸ orderly.named
  owned w x q present queued := by
    rw [storage]
    rcases session?_added found present with ⟨rfl, rfl⟩ | old
    · rw [idle] at queued
      cases queued
    · exact orderly.owned w x q old queued

structure Keeps (b b' : Broker) : Prop where
  sessions : b'.sessions = b.sessions
  exchange : b'.exchange = b.exchange
  nextUid : b'.nextUid = b.nextUid
  names : b'.storage.names = b.storage.names
  buckets : b'.storage.buckets = b.storage.buckets
  opened : b'.storage.opened = b.storage.opened

theorem Keeps.session? {b b' : Broker} (keeps : Keeps b b') : b'.session? = b.session? := by
  funext w
  rw [Broker.session?, Broker.session?, keeps.sessions]

theorem Orderly.kept {b b' : Broker} {loose loose' : List SessionUid} (orderly : b.Orderly loose)
    (keeps : Keeps b b')
    (live : ∀ id uid, b'.registry.get? id = some uid →
      ∃ s, b.session? uid = some s ∧ s.info.id = id ∧ s.closed = false)
    (listed : ∀ uid s, b.session? uid = some s → s.closed = false → uid ∉ loose' →
      b'.registry.get? s.info.id = some uid) : b'.Orderly loose' := by
  have same := keeps.session?
  constructor
  case routed =>
    obtain ⟨dropped, routed⟩ := orderly.routed
    refine ⟨dropped, routed.unchanged ?_ ?_ keeps.exchange⟩
    · rw [same, keeps.nextUid]
      exact routed.own
    · intro w filter
      unfold Holds
      rw [same]
  case live => exact same ▸ live
  case listed => exact same ▸ listed
  case alone => exact same ▸ orderly.alone
  case gone => exact same ▸ orderly.gone
  case supplied => exact same ▸ orderly.supplied
  case named => exact orderly.named.of_eq keeps.names keeps.buckets keeps.opened
  case owned =>
    unfold StoredQueue.Owns
    rw [same, keeps.names]
    exact orderly.owned

theorem Orderly.beside {b b' : Broker} {loose : List SessionUid} (orderly : b.Orderly loose)
    (keeps : Keeps b b') (registry : b'.registry = b.registry) : b'.Orderly loose :=
  orderly.kept keeps (registry ▸ orderly.live) (registry ▸ orderly.listed)

theorem Orderly.registered {b b' : Broker} {loose : List SessionUid} {uid : SessionUid}
    (orderly : b.Orderly (uid :: loose)) {s : Session} (present : b.session? uid = some s)
    (live : s.closed = false) (keeps : Keeps b b')
    (registry : b'.registry = b.registry.insert s.info.id uid) : b'.Orderly loose := by
  apply orderly.kept keeps
  · intro id w entry
    rw [registry, Table.get?_insert] at entry
    split at entry
    · rename_i own
      cases entry
      exact ⟨s, present, own.symm, live⟩
    · exact orderly.live id w entry
  · intro w x here live' bound
    rw [registry, Table.get?_insert]
    split
    · rename_i own
      exact congrArg some (orderly.alone uid w s x present here live live' own.symm)
    · rename_i other
      refine orderly.listed w x here live' fun member => ?_
      rcases List.mem_cons.mp member with rfl | late
      · rw [present] at here
        cases here
        exact other rfl
      · exact bound late

theorem Orderly.unregistered {b b' : Broker} (orderly : b.Orderly) {id : String}
    {uid : SessionUid} (entry : b.registry.get? id = some uid) (keeps : Keeps b b')
    (registry : b'.registry = b.registry.erase id) : b'.Orderly [uid] := by
  apply orderly.kept keeps
  · intro other w found
    rw [registry, Table.get?_erase] at found
    split at found
    · cases found
    · exact orderly.live other w found
  · intro w x here live bound
    have found := orderly.listed w x here live List.not_mem_nil
    rw [registry, Table.get?_erase, if_neg, found]
    intro own
    rw [own, entry] at found
    cases found
    exact bound (List.mem_singleton.mpr rfl)

theorem Orderly.find?_none {b : Broker} (orderly : b.Orderly) {id : String}
    (none : b.find? id = none) (uid : SessionUid) (s : Session) (present : b.session? uid = some s)
    (live : s.closed = false) : s.info.id ≠ id := by
  rintro rfl
  have entry := orderly.listed uid s present live List.not_mem_nil
  rw [find?, entry, Option.bind_some, present] at none
  cases none

theorem create_session? (b : Broker) (id : String) (clean : Bool) (uid : SessionUid) :
    (b.create id clean).1.session? uid = if uid = b.nextUid then
      some (Session.new b.nextUid { id, cleanSession := clean } b.settings.mqtt)
      else b.session? uid := by
  exact session?_putSession ..

theorem Orderly.create {b : Broker} (orderly : b.Orderly) {id : String}
    (none : b.find? id = none) (clean : Bool) : (b.create id clean).1.Orderly := by
  let s := Session.new b.nextUid { id, cleanSession := clean } b.settings.mqtt
  have found : ∀ w, (({ b with nextUid := b.nextUid + 1 }).putSession s).session? w =
      if w = b.nextUid then some s else b.session? w := fun w => session?_putSession ..
  have absent := orderly.find?_none none
  have added := orderly.added (s := s) rfl rfl rfl rfl absent found rfl rfl rfl rfl
  have present := found b.nextUid
  rw [if_pos rfl] at present
  exact added.registered present rfl ⟨rfl, rfl, rfl, rfl, rfl, rfl⟩ rfl

theorem Orderly.loosen {b : Broker} (orderly : b.Orderly) (loose : List SessionUid) :
    b.Orderly loose :=
  { orderly with listed := fun uid s present live _ =>
      orderly.listed uid s present live List.not_mem_nil }

theorem Orderly.destroy_unregisters {b : Broker} (orderly : b.Orderly) {uid : SessionUid}
    {s : Session} (present : b.session? uid = some s) :
    ∃ registry stats, b.destroy uid = ({ b with registry, stats }).closeSession uid true ∧
      ({ b with registry, stats } : Broker).Orderly [uid] ∧
      ∀ id, registry.get? id ≠ some uid := by
  -- a session that is not registered under its id is not registered at all
  have only : ∀ id, b.registry.get? id = some uid → id = s.info.id := by
    intro id entry
    obtain ⟨x, here, own, _⟩ := orderly.live id uid entry
    rw [present] at here
    cases here
    exact own.symm
  simp only [Broker.destroy, present]
  by_cases entry : b.registry.get? s.info.id = some uid
  · refine ⟨b.registry.erase s.info.id, { b.stats with sessions := b.stats.sessions.decrement },
      by rw [if_pos entry], orderly.unregistered entry ⟨rfl, rfl, rfl, rfl, rfl, rfl⟩ rfl, ?_⟩
    intro id other
    rw [Table.get?_erase] at other
    split at other
    · cases other
    · rename_i different
      exact different (only id other)
  · exact ⟨b.registry, b.stats, by rw [if_neg entry], orderly.loosen [uid],
      fun id other => entry (only id other ▸ other)⟩

theorem Orderly.destroy {b : Broker} (orderly : b.Orderly) (uid : SessionUid) :
    (b.destroy uid).1.Orderly := by
  cases present : b.session? uid with
  | none =>
      simp only [Broker.destroy, present]
      exact orderly
  | some s =>
      obtain ⟨registry, stats, same, loose, absent⟩ := orderly.destroy_unregisters present
      rw [same]
      exact loose.closeSession absent true

theorem Orderly.closeSession_kept {b : Broker} {loose : List SessionUid} (orderly : b.Orderly loose)
    {w : SessionUid} {x : Session} (present : b.session? w = some x) (closed : x.closed = true)
    (uid : SessionUid) (cleanup : Bool) :
    (b.closeSession uid cleanup).1.session? w = some x := by
  rcases b.closeSession_cases uid cleanup with ⟨_, same⟩ | ⟨s, here, live⟩
  · rw [same]
    exact present
  · obtain ⟨rfl, _⟩ := orderly.own here
    obtain ⟨_, _, _, _, _, _, _, _, _, reforms⟩ := orderly.reforms_closeSession here live cleanup
    rw [reforms.found, if_neg]
    · exact present
    · rintro rfl
      rw [here] at present
      cases present
      rw [live] at closed
      cases closed

theorem closeSession_frame (b : Broker) (uid : SessionUid) (cleanup : Bool) :
    (b.closeSession uid cleanup).1.registry = b.registry ∧
      (b.closeSession uid cleanup).1.access = b.access ∧
      (b.closeSession uid cleanup).1.nextUid = b.nextUid ∧
      (b.closeSession uid cleanup).1.shuttingDown = b.shuttingDown := by
  rcases b.closeSession_cases uid cleanup with ⟨_, same⟩ | ⟨s, present, live⟩
  · rw [same]
    exact ⟨rfl, rfl, rfl, rfl⟩
  · obtain ⟨_, _, _, _, _, _, _, _, after⟩ := closeSession_changes present live cleanup
    rw [after]
    exact ⟨rfl, rfl, rfl, rfl⟩

def closeListed (b : Broker) (uid : SessionUid) : Broker :=
  let clean := (b.session? uid).any fun s => s.info.cleanSession
  let b := (b.closeSession uid clean).1
  { b with stats := { b.stats with sessions := b.stats.sessions.decrement } }

theorem closeSessions_closeListed (b : Broker) :
    b.closeSessions = b.registry.values.foldl closeListed { b with registry := [] } :=
  rfl

theorem closeSessions_frame (b : Broker) :
    b.closeSessions.access = b.access ∧ b.closeSessions.nextUid = b.nextUid ∧
      b.closeSessions.shuttingDown = b.shuttingDown := by
  rw [closeSessions_closeListed]
  suffices folded : ∀ (uids : List SessionUid) (before : Broker),
      (uids.foldl closeListed before).access = before.access ∧
      (uids.foldl closeListed before).nextUid = before.nextUid ∧
      (uids.foldl closeListed before).shuttingDown = before.shuttingDown from folded ..
  intro uids
  induction uids with
  | nil => exact fun _ => ⟨rfl, rfl, rfl⟩
  | cons uid rest ih =>
      intro before
      obtain ⟨_, access, nextUid, down⟩ := before.closeSession_frame uid
        ((before.session? uid).any fun s => s.info.cleanSession)
      obtain ⟨access', nextUid', down'⟩ := ih (before.closeListed uid)
      exact ⟨access'.trans access, nextUid'.trans nextUid, down'.trans down⟩

theorem Orderly.closeAll {uids : List SessionUid} {b : Broker} (orderly : b.Orderly uids)
    (registry : b.registry = []) :
    (uids.foldl closeListed b).Orderly ∧ (uids.foldl closeListed b).registry = [] ∧
      ∀ uid s, b.session? uid = some s → s.closed = true →
        (uids.foldl closeListed b).session? uid = some s := by
  -- nobody is registered any more, and the loose sessions are those that are still to be closed
  induction uids generalizing b with
  | nil => exact ⟨orderly, registry, fun _ _ present _ => present⟩
  | cons uid rest ih =>
      rw [List.foldl_cons, closeListed]
      generalize ((b.session? uid).any fun s => s.info.cleanSession) = clean
      have absent : ∀ id, b.registry.get? id ≠ some uid := by
        intro id entry
        rw [registry] at entry
        cases entry
      have closed := orderly.closeSession absent clean
      obtain ⟨orderly', registry', kept⟩ := ih
        (b := { (b.closeSession uid clean).1 with
          stats := { (b.closeSession uid clean).1.stats with
            sessions := (b.closeSession uid clean).1.stats.sessions.decrement } })
        (closed.beside ⟨rfl, rfl, rfl, rfl, rfl, rfl⟩ rfl)
        ((closeSession_frame ..).1.trans registry)
      refine ⟨orderly', registry', fun w s present gone => ?_⟩
      exact kept w s (orderly.closeSession_kept present gone uid clean) gone

theorem Orderly.unlistedAll {b : Broker} (orderly : b.Orderly) :
    ({ b with registry := [] } : Broker).Orderly b.registry.values := by
  refine orderly.kept ⟨rfl, rfl, rfl, rfl, rfl, rfl⟩ (fun _ _ entry => nomatch entry) ?_
  intro uid s present live absent
  exact absurd (Table.mem_values (orderly.listed uid s present live List.not_mem_nil)) absent

theorem Orderly.closeSessions {b : Broker} (orderly : b.Orderly) :
    b.closeSessions.Orderly ∧
      (∀ uid s, b.closeSessions.session? uid = some s → s.closed = true) ∧
      ∀ uid s, b.session? uid = some s → s.closed = true →
        b.closeSessions.session? uid = some s := by
  obtain ⟨closed, registry, kept⟩ := orderly.unlistedAll.closeAll rfl
  refine ⟨closed, fun uid s present => ?_, kept⟩
  cases live : s.closed with
  | true => rfl
  | false =>
      have entry := closed.listed uid s present live List.not_mem_nil
      rw [registry] at entry
      cases entry

end Broker

end MqttBroker
