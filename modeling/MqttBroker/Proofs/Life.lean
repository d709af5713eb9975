import Mathlib.Logic.Relation
import MqttBroker.Broker.Calls
import MqttBroker.Proofs.Delivery
import MqttBroker.Proofs.Filing

/-!
What can be done to the sessions of a broker. Whatever the broker does is a sequence of a few kinds
of change, and each of them keeps the sessions in step with the registry, the exchange and the
storage.
-/

namespace MqttBroker

structure Client where
  uid : SessionUid
  principal : Option Principal
  grants : Grants

theorem StoredQueue.Drained.refl {τ : Type} (q : StoredQueue τ) : q.Drained q :=
  ⟨rfl, rfl, rfl, rfl, fun _ member => member⟩

theorem StoredQueue.acknowledge_drained {τ : Type} (q : StoredQueue τ) (offset : Nat) :
    q.Drained (q.acknowledge offset) := by
  unfold StoredQueue.acknowledge DurableQueue.acknowledge
  split
  · exact .refl q
  · exact ⟨rfl, rfl, rfl, rfl, fun _ member => member⟩

theorem StoredQueue.Drained.trans {τ : Type} {q q' q'' : StoredQueue τ} (first : q.Drained q')
    (second : q'.Drained q'') : q.Drained q'' where
  handle := second.handle.trans first.handle
  closed := second.closed.trans first.closed
  unstored := second.unstored.trans first.unstored
  reading := second.reading.trans first.reading
  outbox _ member := first.outbox (second.outbox member)

theorem StoredQueue.pop_drained {τ : Type} (q : StoredQueue τ) : q.Drained q.pop.1 := by
  cases next : q.queue.outbox with
  | nil =>
      simp only [StoredQueue.pop, DurableQueue.pop, next]
      exact .refl q
  | cons m rest =>
      simp only [StoredQueue.pop, DurableQueue.pop, next]
      exact ⟨rfl, rfl, rfl, rfl, fun _ member => next ▸ List.mem_cons_of_mem m member⟩

theorem SessionQueues.drained_of_durable {queues queues' : Option SessionQueues}
    (durable : queues'.map SessionQueues.durable = queues.map SessionQueues.durable) :
    queues'.isSome = queues.isSome ∧
      ∀ q q', queues = some q → queues' = some q' → q.durable.Drained q'.durable := by
  refine ⟨by simpa using congrArg Option.isSome durable, fun q q' queued queued' => ?_⟩
  rw [queued, queued', Option.map_some, Option.map_some, Option.some_inj] at durable
  exact durable ▸ .refl q.durable

namespace Delivery

structure Drains (d d' : Delivery) : Prop where
  queues : d'.queues.isSome = d.queues.isSome
  drained : ∀ q q', d.queues = some q → d'.queues = some q' → q.durable.Drained q'.durable
  window : d.queues = none → d.window.entries = [] → d'.window.entries = []

theorem Quiet.drains {d d' : Delivery} (quiet : Quiet d d') : Drains d d' := by
  obtain ⟨queues, drained⟩ := SessionQueues.drained_of_durable quiet.durable
  refine ⟨queues, drained, fun _ empty => ?_⟩
  simpa [empty] using quiet.entries

theorem Drains.trans {d d' d'' : Delivery} (first : Drains d d') (second : Drains d' d'') :
    Drains d d'' := by
  refine ⟨second.queues.trans first.queues, fun q q'' queued queued'' => ?_, fun idle empty => ?_⟩
  · obtain ⟨q', queued'⟩ := Option.isSome_iff_exists.mp
      (first.queues.trans (congrArg Option.isSome queued))
    exact (first.drained q q' queued queued').trans (second.drained q' q'' queued' queued'')
  · refine second.window ?_ (first.window idle empty)
    simpa [idle] using first.queues

theorem TakesIn.drains {d d' : Delivery} {now : Nat} (taken : TakesIn d now d') : Drains d d' := by
  obtain ⟨q, durable, m, queued, popped, quiet⟩ := taken
  suffices moved : Drains d (d.takeIn q durable m now).1 from moved.trans quiet.drains
  refine ⟨by simp [takeIn, queued], ?_, by simp [queued]⟩
  intro p p' here after
  rw [queued] at here
  cases here
  simp only [takeIn] at after
  cases after
  have drained := q.durable.pop_drained
  rw [popped] at drained
  dsimp only
  split
  · exact drained.trans (durable.acknowledge_drained _)
  · exact drained

theorem run_drains (fuel : Nat) (d : Delivery) (now : Nat) : Drains d (run fuel d now).1 := by
  induction fuel generalizing d with
  | zero => exact (Quiet.refl d).drains
  | succ fuel ih =>
      simp only [run]
      split
      · exact (Quiet.refl d).drains
      · rename_i d' step
        refine Drains.trans ?_ (ih d')
        rcases next_cases step with quiet | taken
        · exact quiet.drains
        · exact taken.drains

end Delivery

theorem Session.used_of_drains {s : Session} {out : Outgoing} {link : Link} {gauge : Gauge}
    {d : Delivery} (drains : (Delivery.ofSession s out link gauge).Drains d) :
    s.Used (d.session s) :=
  ⟨rfl, rfl, rfl, rfl, fun _ => rfl, drains.queues, drains.drained, drains.window⟩

theorem Session.used_of_durable {s s' : Session} (uid : s'.uid = s.uid)
    (id : s'.info.id = s.info.id) (subscriptions : s'.info.subscriptions = s.info.subscriptions)
    (closed : s'.closed = s.closed) (client : s.closed = true → s'.client = s.client)
    (durable : s'.queues.map SessionQueues.durable = s.queues.map SessionQueues.durable)
    (window : s'.inflight.entries = s.inflight.entries) : s.Used s' := by
  obtain ⟨queues, drained⟩ := SessionQueues.drained_of_durable durable
  exact ⟨uid, id, subscriptions, closed, client, queues, drained, fun _ empty => window.trans empty⟩

namespace Broker

structure Beside (b b' : Broker) : Prop where
  settings : b'.settings = b.settings
  access : b'.access = b.access
  sessions : b'.sessions = b.sessions
  registry : b'.registry = b.registry
  exchange : b'.exchange = b.exchange
  nextUid : b'.nextUid = b.nextUid
  shuttingDown : b'.shuttingDown = b.shuttingDown
  names : b'.storage.names = b.storage.names
  buckets : b'.storage.buckets = b.storage.buckets
  opened : b'.storage.opened = b.storage.opened
  filed : Storage.Filed b.storage.entries → Storage.Filed b'.storage.entries

/-- A change to the sessions, where only these clients subscribe and only these messages are handed
to sessions. -/
inductive Change (clients : List Client) (handed : List (SessionUid × Publish)) (b : Broker) :
    Broker → Prop
  | beside {b'} : Beside b b' → Change clients handed b b'
  | used {s} (s') : b.session? s.uid = some s → s.Used s' →
      Change clients handed b (b.putSession s')
  | queued {s q durable event p} : b.session? s.uid = some s → s.queues = some q →
      q.durable.push event p = some durable → (s.uid, p) ∈ handed →
      Change clients handed b (b.putSession { s with queues := some { q with durable } })
  | turns (uid activities) : Change clients handed b (b.turns uid activities)
  | subscribed {b' c filter qos added} : c ∈ clients →
      c.grants.authorizes .subscribe filter = true →
      b.subscribe c.uid filter qos = .ok (b', added) → Change clients handed b b'
  | unsubscribed {b' uid filter removed} : b.unsubscribe uid filter = .ok (b', removed) →
      Change clients handed b b'
  | created (id clean) : b.find? id = none → b.shuttingDown = false →
      Change clients handed b (b.create id clean).1
  | destroyed (uid) : Change clients handed b (b.destroy uid).1
  | stopping : Change clients handed b { b with shuttingDown := true }
  | stopped : b.shuttingDown = true → Change clients handed b b.closeSessions

def Changes (clients : List Client) (handed : List (SessionUid × Publish)) :
    Broker → Broker → Prop :=
  Relation.ReflTransGen (Change clients handed)

variable {clients : List Client} {handed : List (SessionUid × Publish)} {b b' b'' : Broker}

theorem Beside.of_eq (settings : b'.settings = b.settings) (access : b'.access = b.access)
    (sessions : b'.sessions = b.sessions) (registry : b'.registry = b.registry)
    (exchange : b'.exchange = b.exchange) (nextUid : b'.nextUid = b.nextUid)
    (shuttingDown : b'.shuttingDown = b.shuttingDown) (storage : b'.storage = b.storage) :
    Beside b b' :=
  ⟨settings, access, sessions, registry, exchange, nextUid, shuttingDown, by rw [storage],
    by rw [storage], by rw [storage], fun filed => storage ▸ filed⟩

theorem Beside.refl (b : Broker) : Beside b b := .of_eq rfl rfl rfl rfl rfl rfl rfl rfl

theorem Beside.keeps (beside : Beside b b') : Keeps b b' :=
  ⟨beside.sessions, beside.exchange, beside.nextUid, beside.names, beside.buckets, beside.opened⟩

theorem Change.orderly (orderly : b.Orderly) (change : Change clients handed b b') :
    b'.Orderly := by
  cases change with
  | beside beside => exact orderly.beside beside.keeps beside.registry
  | used s' present used => exact orderly.used present used
  | queued present queued pushed _ => exact orderly.queued present queued pushed
  | turns uid activities => exact orderly.turns uid activities
  | subscribed _ _ done => exact orderly.subscribe done
  | unsubscribed done => exact orderly.unsubscribe done
  | created id clean none _ => exact orderly.create none clean
  | destroyed uid => exact orderly.destroy uid
  | stopping => exact orderly.beside ⟨rfl, rfl, rfl, rfl, rfl, rfl⟩ rfl
  | stopped _ => exact orderly.closeSessions.1

theorem Change.filed (filed : Storage.Filed b.storage.entries)
    (change : Change clients handed b b') : Storage.Filed b'.storage.entries := by
  cases change with
  | beside beside => exact beside.filed filed
  | used s' _ _ => exact filed
  | queued _ _ _ _ => exact filed
  | turns uid activities => exact (b.turns_entries uid activities).symm ▸ filed
  | subscribed _ _ done => exact subscribe_entries done ▸ filed
  | unsubscribed done => exact unsubscribe_entries done ▸ filed
  | created id clean _ _ => exact filed
  | destroyed uid => exact destroy_filed filed uid
  | stopping => exact filed
  | stopped _ => exact closeSessions_filed filed

theorem Change.mono {clients' : List Client} {handed' : List (SessionUid × Publish)}
    (change : Change clients handed b b') (more : clients ⊆ clients') (further : handed ⊆ handed') :
    Change clients' handed' b b' := by
  cases change with
  | beside beside => exact .beside beside
  | used s' present used => exact .used s' present used
  | queued present queued pushed member => exact .queued present queued pushed (further member)
  | turns uid activities => exact .turns uid activities
  | subscribed member granted done => exact .subscribed (more member) granted done
  | unsubscribed done => exact .unsubscribed done
  | created id clean none running => exact .created id clean none running
  | destroyed uid => exact .destroyed uid
  | stopping => exact .stopping
  | stopped down => exact .stopped down

namespace Changes

theorem refl (b : Broker) : Changes clients handed b b := Relation.ReflTransGen.refl

theorem trans (first : Changes clients handed b b') (second : Changes clients handed b' b'') :
    Changes clients handed b b'' :=
  Relation.ReflTransGen.trans first second

theorem one (change : Change clients handed b b') : Changes clients handed b b' := .single change

theorem beside (beside : Beside b b') : Changes clients handed b b' := one (.beside beside)

theorem mono {clients' : List Client} {handed' : List (SessionUid × Publish)}
    (changes : Changes clients handed b b') (more : clients ⊆ clients')
    (further : handed ⊆ handed') : Changes clients' handed' b b' := by
  induction changes with
  | refl => exact refl b
  | tail _ change ih => exact ih.trans (one (change.mono more further))

/-- What every change preserves of an orderly broker is preserved. -/
theorem preserve {P : Broker → Prop} (changes : Changes clients handed b b')
    (kept : ∀ {b b' : Broker}, b.Orderly → P b → Change clients handed b b' → P b')
    (orderly : b.Orderly) (holds : P b) : b'.Orderly ∧ P b' := by
  induction changes with
  | refl => exact ⟨orderly, holds⟩
  | tail _ change ih => exact ⟨change.orderly ih.1, kept ih.1 ih.2 change⟩

theorem orderly (changes : Changes clients handed b b') (orderly : b.Orderly) : b'.Orderly :=
  (changes.preserve (P := fun _ => True) (fun _ _ _ => trivial) orderly trivial).1

theorem filed (changes : Changes clients handed b b') (filed : Storage.Filed b.storage.entries) :
    Storage.Filed b'.storage.entries := by
  induction changes with
  | refl => exact filed
  | tail _ change ih => exact change.filed ih

theorem used {s s' : Session} (present : b.session? s.uid = some s) (used : s.Used s')
    (beside : Beside (b.putSession s') b') : Changes clients handed b b' :=
  (one (.used s' present used)).trans (.beside beside)

end Changes

/-! What comes of a change -/

structure Still (b b' : Broker) : Prop where
  sessions : b'.sessions = b.sessions
  access : b'.access = b.access
  nextUid : b'.nextUid = b.nextUid
  down : b.shuttingDown = true → b'.shuttingDown = true
  names : b'.storage.names = b.storage.names
  buckets : b'.storage.buckets = b.storage.buckets

inductive Reformed (clients : List Client) (handed : List (SessionUid × Publish))
    (b b' : Broker) (s s' : Session) : Prop
  | used : s.Used s' → b'.storage = b.storage → Reformed clients handed b b' s s'
  | queued {q durable event p} : s.queues = some q → q.durable.push event p = some durable →
      (s.uid, p) ∈ handed → s' = { s with queues := some { q with durable } } →
      b'.storage = b.storage → Reformed clients handed b b' s s'
  | turned {q} (activities) : s.queues = some q →
      s' = { s with queues := some { q with
        durable := (q.durable.turns b.storage activities).queue } } →
      b'.storage = (q.durable.turns b.storage activities).memory →
      Reformed clients handed b b' s s'
  | subscribed {c filter qos} : c ∈ clients → c.uid = s.uid →
      c.grants.authorizes .subscribe filter = true → s.closed = false →
      b.Provided s b'.storage s'.queues → s'.closed = s.closed →
      s'.info = { s.info with subscriptions := s.info.subscriptions.insert filter qos } →
      Reformed clients handed b b' s s'
  | unsubscribed {filter} : s'.closed = s.closed →
      s'.info = { s.info with subscriptions := s.info.subscriptions.erase filter } →
      (s'.queues = s.queues ∧ b'.storage = b.storage ∨
        s'.queues = none ∧ b'.storage = b.storageWithout s true) →
      (s.inflight.entries = [] → s'.inflight.entries = []) →
      Reformed clients handed b b' s s'
  | closed {entries} : s.closed = false → s'.closed = true → s'.queues = none →
      s'.info = s.info → b'.storage = { b.storageWithout s true with entries } →
      Reformed clients handed b b' s s'

/-- All that a change of an orderly broker can come to. -/
inductive Effect (clients : List Client) (handed : List (SessionUid × Publish)) (b : Broker) :
    Broker → Prop
  | still {next} : Still b next → Effect clients handed b next
  | reformed {next s s'} : Reforms b next s s' → Reformed clients handed b next s s' →
      Effect clients handed b next
  | created (id clean) : b.find? id = none → b.shuttingDown = false →
      Effect clients handed b (b.create id clean).1
  | stopped : b.shuttingDown = true → Effect clients handed b b.closeSessions

theorem Still.refl (b : Broker) : Still b b := ⟨rfl, rfl, rfl, id, rfl, rfl⟩

theorem Still.session? (still : Still b b') : b'.session? = b.session? := by
  funext w
  rw [Broker.session?, Broker.session?, still.sessions]

theorem destroy_effect (orderly : b.Orderly) (uid : SessionUid) :
    Effect clients handed b (b.destroy uid).1 := by
  cases present : b.session? uid with
  | none =>
      simp only [destroy, present]
      exact .still (.refl b)
  | some s =>
      obtain ⟨rfl, _⟩ := orderly.own present
      obtain ⟨registry, stats, same, loose, _⟩ := orderly.destroy_unregisters present
      rw [same]
      cases closed : s.closed with
      | true =>
          rw [closeSession_closed]
          · exact .still ⟨rfl, rfl, rfl, id, rfl, rfl⟩
          · intro x here
            cases present.symm.trans here
            exact closed
      | false =>
          obtain ⟨s', entries, closed', _, idle, info, _, storage, _, reforms⟩ :=
            loose.reforms_closeSession present closed true
          have reforms : Reforms b _ s s' := ⟨reforms.present, reforms.found, reforms.uid,
            reforms.id, reforms.access, reforms.nextUid, reforms.shuttingDown, reforms.named,
            reforms.spares, reforms.owned⟩
          exact .reformed reforms (.closed closed closed' idle info storage)

theorem Change.effect (orderly : b.Orderly) (change : Change clients handed b b') :
    Effect clients handed b b' := by
  cases change with
  | beside beside =>
      exact .still ⟨beside.sessions, beside.access, beside.nextUid,
        fun down => beside.shuttingDown.trans down, beside.names, beside.buckets⟩
  | used s' present used =>
      exact .reformed (orderly.reforms_used present used) (.used used rfl)
  | queued present queued pushed member =>
      exact .reformed (orderly.reforms_queued present queued pushed)
        (.queued queued pushed member rfl rfl)
  | turns uid activities =>
      rcases orderly.reforms_turns uid activities with
        same | ⟨s, q, work, present, queued, rfl, storage, _, _, reforms⟩
      · rw [same]
        exact .still (.refl b)
      · exact .reformed reforms (.turned activities queued rfl storage)
  | subscribed member granted done =>
      obtain ⟨s, s', present, live, provided, closed, info, _, reforms⟩ :=
        orderly.reforms_subscribe done
      exact .reformed reforms
        (.subscribed member (orderly.own present).1.symm granted live provided closed info)
  | unsubscribed done =>
      rcases orderly.reforms_unsubscribe done with
        rfl | ⟨s, s', _, closed, _, _, info, emptied, window, _, reforms⟩
      · exact .still (.refl b')
      · exact .reformed reforms (.unsubscribed closed info
          (emptied.imp (fun kept => kept.2) fun emptied => emptied.2) window)
  | created id clean none running => exact .created id clean none running
  | destroyed uid => exact destroy_effect orderly uid
  | stopping => exact .still ⟨rfl, rfl, rfl, fun _ => rfl, rfl, rfl⟩
  | stopped down => exact .stopped down

/-! The operations of a broker as sequences of changes -/

theorem persist_changes {uid : SessionUid} (done : b.persist uid = .ok b') :
    b' = b ∨ ∃ s entries, b.session? uid = some s ∧
      (s.info.cleanSession = true ∧ entries = b.storage.entries.erase (Session.key s.info.id) ∨
        s.info.cleanSession = false ∧ entries = b.storage.entries.insert (Session.key s.info.id)
          (Codec.Json.store (Codec.Json.ofSession s.info))) ∧
      b' = { b with storage := { b.storage with entries } } := by
  unfold persist at done
  split at done
  · cases done
    exact Or.inl rfl
  · rename_i s present
    refine Or.inr ⟨s, ?_⟩
    cases clean : s.info.cleanSession with
    | true =>
        simp only [clean, if_true, bind_eq_ok] at done
        obtain ⟨storage, deleted, same⟩ := done
        obtain ⟨_, rfl⟩ := deleteEntry_ok deleted
        cases same
        exact ⟨_, present, Or.inl ⟨rfl, rfl⟩, rfl⟩
    | false =>
        simp only [clean, Bool.false_eq_true, if_false, bind_eq_ok] at done
        obtain ⟨storage, stored, same⟩ := done
        obtain ⟨_, rfl⟩ := setEntry_ok stored
        cases same
        exact ⟨_, present, Or.inr ⟨rfl, rfl⟩, rfl⟩

theorem persist_beside {uid : SessionUid} (done : b.persist uid = .ok b') : Beside b b' := by
  rcases persist_changes done with rfl | ⟨s, entries, _, kept, rfl⟩
  · exact .refl b'
  · refine ⟨rfl, rfl, rfl, rfl, rfl, rfl, rfl, rfl, rfl, rfl, fun filed => ?_⟩
    rcases kept with ⟨_, rfl⟩ | ⟨_, rfl⟩
    · exact filed.erase _
    · exact filed.record s.info

theorem doneAll_beside (b : Broker) (ids : List EventId) : Beside b (b.doneAll ids) := by
  obtain ⟨reported, connections, frame⟩ := b.doneAll_frame ids
  rw [frame]
  exact .of_eq rfl rfl rfl rfl rfl rfl rfl rfl

def messageFor (b : Broker) (uid : SessionUid) (event : EventId) : List (SessionUid × Publish) :=
  ((b.events.event? event).map fun e => (uid, e.message)).toList

theorem pushGranted_changes {uid : SessionUid} {event : EventId} (orderly : b.Orderly)
    (logged : b.messageFor uid event ⊆ handed) (qos : QoS) :
    Changes clients handed b (b.pushGranted uid event qos) := by
  unfold pushGranted
  split
  · rename_i s e present entered
    have member : (uid, e.message) ∈ handed := logged (by simp [messageFor, entered])
    obtain ⟨rfl, _⟩ := orderly.own present
    split
    · exact .beside (b.doneAll_beside [event])
    · rename_i q queued _
      have used : s.Used { s with queues := some { q with
          temporary := (q.temporary.push e.message).1 } } :=
        Session.used_of_durable rfl rfl rfl rfl (fun _ => rfl) (by simp [queued]) rfl
      refine (Changes.used present used ?_).trans (.beside (doneAll_beside _ [event]))
      exact .of_eq rfl rfl rfl rfl rfl rfl rfl rfl
    · rename_i q _ queued _
      split
      · exact .beside (b.doneAll_beside [event])
      · rename_i durable pushed
        exact .one (.queued present queued pushed member)
  · exact .refl b

theorem push_changes {uid : SessionUid} {event : EventId} (orderly : b.Orderly)
    (logged : b.messageFor uid event ⊆ handed) :
    Changes clients handed b (b.push uid event) := by
  unfold push
  split
  · split
    · exact pushGranted_changes orderly logged _
    · exact .beside (b.doneAll_beside [event])
  · exact .refl b

theorem acknowledge_changes (orderly : b.Orderly) (uid : SessionUid) (id : PacketId) :
    Changes clients handed b (b.acknowledge uid id).1 := by
  unfold acknowledge
  split
  · exact .refl b
  · rename_i s' acknowledged
    obtain ⟨s, present, acked⟩ := Option.bind_eq_some_iff.mp acknowledged
    obtain ⟨rfl, _⟩ := orderly.own present
    suffices used : s.Used s' from
      .used present used (.of_eq rfl rfl rfl rfl rfl rfl rfl rfl)
    unfold Session.acknowledge at acked
    split at acked
    · cases acked
    · cases acked
      rename_i inflight offset acked
      refine ⟨rfl, rfl, rfl, rfl, fun _ => rfl, by simp, ?_, fun _ empty => ?_⟩
      · intro q q' queued queued'
        rw [queued] at queued'
        cases queued'
        exact q.durable.acknowledge_drained _
      · -- An empty window holds nothing that could be acknowledged.
        rw [Inflight.ack, Inflight.find?, empty] at acked
        cases acked

theorem keep_changes (b : Broker) (p : Publish) : Changes clients handed b (b.keep p) := by
  unfold keep
  split
  · split
    · rename_i retain storage stored
      obtain ⟨entries, rfl, filed⟩ := RetainStore.set_filed (congrArg Prod.snd stored)
      exact .beside ⟨rfl, rfl, rfl, rfl, rfl, rfl, rfl, rfl, rfl, rfl, filed⟩
    · exact .beside (.of_eq rfl rfl rfl rfl rfl rfl rfl rfl)
  · exact .refl b

theorem unsubscribeAll_changes (uid : SessionUid) (filters : List String) (b : Broker) :
    Changes clients handed b (unsubscribeAll uid filters b).1 := by
  induction filters generalizing b with
  | nil => exact .refl b
  | cons filter rest ih =>
      simp only [unsubscribeAll]
      split
      · rename_i b' removed done
        exact (Changes.one (.unsubscribed done)).trans (ih b')
      · exact .refl b

theorem requestUnsubscriptions_changes (b : Broker) (uid : SessionUid) (filters : List String) :
    Changes clients handed b (b.requestUnsubscriptions uid filters).1 := by
  have dropped : Changes clients handed b (unsubscribeAll uid filters b).1 :=
    unsubscribeAll_changes uid filters b
  unfold requestUnsubscriptions
  split
  · rename_i b' e same
    rw [same] at dropped
    exact dropped
  · rename_i b' same
    rw [same] at dropped
    split
    · rename_i b'' stored
      exact dropped.trans (.beside (persist_beside stored))
    · exact dropped

theorem checkFilter_authorizes {grants : Option Grants} {filter : String}
    (checked : b.checkFilter grants filter = .ok ()) :
    ∃ g, grants = some g ∧ g.authorizes .subscribe filter = true := by
  simp only [checkFilter, bind_eq_ok] at checked
  obtain ⟨_, _, granted⟩ := checked
  split at granted
  · rename_i allowed
    obtain ⟨g, given, authorized⟩ := (Option.any_eq_true ..).mp allowed
    exact ⟨g, given, authorized⟩
  · cases granted

theorem allows_authorizes {uid : SessionUid} {grants : Grants} {filter : String}
    (allowed : b.allows uid grants filter = true) : grants.authorizes .subscribe filter = true := by
  simp only [allows, Bool.and_eq_true] at allowed
  cases checked : b.checkFilter (some grants) filter with
  | error e =>
      rw [checked] at allowed
      cases allowed.1
  | ok _ =>
      obtain ⟨g, given, authorized⟩ := checkFilter_authorizes checked
      cases given
      exact authorized

theorem subscribeAll_changes {c : Client} (member : c ∈ clients) (requests : List (String × QoS))
    (b : Broker) : Changes clients handed b (subscribeAll c.uid c.grants requests b).1 := by
  induction requests generalizing b with
  | nil => exact .refl b
  | cons request rest ih =>
      obtain ⟨filter, qos⟩ := request
      simp only [subscribeAll]
      split
      · rename_i allowed
        split
        · exact .refl b
        · rename_i b' added done
          exact (Changes.one (.subscribed member (allows_authorizes allowed) done)).trans (ih b')
      · exact ih b

theorem requestSubscriptions_changes {c : Client} (member : c ∈ clients)
    (requests : List (String × QoS)) (b : Broker) :
    Changes clients handed b (b.requestSubscriptions c.uid c.grants requests).1 := by
  have entered : Changes clients handed b (subscribeAll c.uid c.grants requests b).1 :=
    subscribeAll_changes member requests b
  unfold requestSubscriptions
  split
  · rename_i b' e same
    rw [same] at entered
    exact entered
  · rename_i b' answer same
    rw [same] at entered
    split
    · rename_i b'' stored
      exact entered.trans (.beside (persist_beside stored))
    · exact entered

theorem release_changes (orderly : b.Orderly) (uid : SessionUid) (conn : ConnectionId) :
    Changes clients handed b (b.release uid conn) := by
  unfold release
  split
  · exact .refl b
  · rename_i s present
    obtain ⟨rfl, _⟩ := orderly.own present
    split
    · exact .refl b
    · rename_i bound
      have used : s.Used { s with client := none } := by
        refine Session.used_of_durable rfl rfl rfl rfl (fun closed => ?_) rfl rfl
        exact (orderly.gone s.uid s present closed).symm
      have unbound : Changes clients handed b (b.putSession { s with client := none }) :=
        .one (.used _ present used)
      dsimp only
      split
      · exact unbound.trans (.one (.destroyed s.uid))
      · exact unbound

theorem dropWill_changes (orderly : b.Orderly) (c : Served) :
    Changes clients handed b (b.dropWill c) := by
  unfold dropWill
  split
  · exact .refl b
  · rename_i s present
    split
    · obtain ⟨own, _⟩ := orderly.own present
      have used : Changes clients handed b
          (b.putSession { s with info := { s.info with will := none } }) :=
        .one (.used (s := s) _ (own ▸ present)
          (Session.used_of_durable rfl rfl rfl rfl (fun _ => rfl) rfl rfl))
      dsimp only
      split
      · rename_i b' stored
        exact used.trans (.beside (persist_beside stored))
      · exact used
    · exact .refl b

theorem beginDelivery_changes (orderly : b.Orderly) (c : Connection) (uid : SessionUid) :
    Changes clients handed b (b.beginDelivery c uid) := by
  unfold beginDelivery
  split
  · rename_i s x present _
    obtain ⟨rfl, _⟩ := orderly.own present
    have used := Session.used_of_drains
      (Delivery.ofSession s { uid := s.uid } x.link b.stats.inflights |>.begin_quiet b.now).drains
    refine .used present used ?_
    exact .of_eq rfl rfl rfl rfl rfl rfl rfl rfl
  · exact .refl b

theorem endDelivery_changes (orderly : b.Orderly) (c : Connection) (out : Outgoing) :
    Changes clients handed b (b.endDelivery c out) := by
  unfold endDelivery
  split
  · rename_i s present
    obtain ⟨own, _⟩ := orderly.own present
    split
    · have used : s.Used { s with inflight := s.inflight.release } :=
        Session.used_of_durable rfl rfl rfl rfl (fun _ => rfl) rfl rfl
      refine .used (own ▸ present) used ?_
      exact .of_eq rfl rfl rfl rfl rfl rfl rfl rfl
    · exact .beside (.of_eq rfl rfl rfl rfl rfl rfl rfl rfl)
  · exact .beside (.of_eq rfl rfl rfl rfl rfl rfl rfl rfl)

theorem deliver_changes (orderly : b.Orderly) (c : Connection) :
    Changes clients handed b (b.deliver c).1 := by
  unfold deliver
  split
  · rename_i out s x _ found _
    split
    · exact endDelivery_changes orderly c out
    · obtain ⟨out', _, present⟩ := Option.bind_eq_some_iff.mp found
      obtain ⟨own, _⟩ := orderly.own present
      let d := Delivery.ofSession s out x.link b.stats.inflights
      have used := Session.used_of_drains (d.run_drains d.steps b.now)
      refine .used (own ▸ present) (s := s) used ?_
      exact .of_eq rfl rfl rfl rfl rfl rfl rfl rfl
  · exact .refl b

theorem destroy_registered {s : Session} (present : b.session? s.uid = some s)
    (entry : b.registry.get? s.info.id = some s.uid) :
    (b.destroy s.uid).1.find? s.info.id = none ∧
      (b.destroy s.uid).1.shuttingDown = b.shuttingDown := by
  simp only [destroy, present, entry, if_true]
  obtain ⟨registry, _, _, down⟩ := closeSession_frame { b with
    registry := b.registry.erase s.info.id
    stats := { b.stats with sessions := b.stats.sessions.decrement } } s.uid true
  refine ⟨?_, down⟩
  rw [find?, registry, Table.get?_erase, if_pos rfl]
  rfl

variable (clients handed) in
theorem settleClaim_changes (orderly : b.Orderly) (running : b.shuttingDown = false) {c : Claim}
    {result : Except StorageError (SessionUid × Bool)} (settled : b.settleClaim c = (b', result)) :
    (∃ e, result = .error e ∧ Changes clients handed b b') ∨
      (∃ uid s, result = .ok (uid, true) ∧ b' = b ∧ b.session? uid = some s ∧ s.closed = false) ∨
      ∃ before, Changes clients handed b before ∧ before.find? c.id = none ∧
        before.shuttingDown = false ∧ result = .ok (before.nextUid, false) ∧
        b' = (before.create c.id c.clean).1 := by
  unfold settleClaim at settled
  split at settled
  · rename_i absent
    cases settled
    exact Or.inr (Or.inr ⟨b, .refl b, absent, running, rfl, rfl⟩)
  · rename_i s found
    obtain ⟨uid, entry, present⟩ := Option.bind_eq_some_iff.mp found
    obtain ⟨s', here, id, live⟩ := orderly.live c.id uid entry
    rw [present] at here
    cases here
    obtain ⟨rfl, _⟩ := orderly.own present
    split at settled
    · cases settled
      exact Or.inr (Or.inl ⟨s.uid, s, rfl, rfl, present, live⟩)
    · have gone : Changes clients handed b (b.destroy s.uid).1 := .one (.destroyed s.uid)
      obtain ⟨absent, down⟩ := destroy_registered present (id ▸ entry)
      split at settled
      · rename_i next e same
        rw [same] at gone
        cases settled
        exact Or.inl ⟨e, rfl, gone⟩
      · rename_i next same
        rw [same] at gone absent down
        cases settled
        exact Or.inr (Or.inr ⟨next, gone, id ▸ absent, down.trans running, rfl, rfl⟩)

theorem bind_changes {s : Session} (present : b.session? s.uid = some s)
    (live : s.closed = false) (conn : Option ConnectionId) (unique : Bool) :
    Changes clients handed b (b.bind s conn unique).1 := by
  unfold Broker.bind
  split
  · exact .refl b
  · rename_i id
    have used : s.Used { s with client := some id } := by
      refine Session.used_of_durable rfl rfl rfl rfl (fun closed => ?_) rfl rfl
      rw [live] at closed
      cases closed
    dsimp only
    split
    · exact .one (.used _ present used)
    · refine .used present used ?_
      dsimp only
      split <;> exact .of_eq rfl rfl rfl rfl rfl rfl rfl rfl

def takeUp (b : Broker) (c : Claim) (conn : Option ConnectionId) (unique : Bool) (uid : SessionUid)
    (present : Bool) : Broker × Except Failure Claimed :=
  match b.session? uid with
  | none => (b, .error (.protocol .serviceUnavailable))
  | some s =>
    let info := { s.info with cleanSession := c.clean, will := c.will, principal := c.principal }
    let s := { s with info }
    let (b, replaced) := (b.putSession s).bind s conn unique
    match b.persist uid with
    | .error e => (b, .error (.storage e))
    | .ok b => (b, .ok { uid, present, replaced })

theorem claim_takeUp (c : Claim) (conn : Option ConnectionId) (unique : Bool) :
    b.claim c conn unique =
      if b.shuttingDown then (b, .error (.protocol .serviceUnavailable))
      else match b.settleClaim c with
        | (b, .error e) => (b, .error (.storage e))
        | (b, .ok (uid, present)) => b.takeUp c conn unique uid present :=
  rfl

variable (clients handed) in
theorem takeUp_changes {c : Claim} {conn : Option ConnectionId} {unique present : Bool}
    {s : Session} {result : Except Failure Claimed} (here : b.session? s.uid = some s)
    (live : s.closed = false) (done : b.takeUp c conn unique s.uid present = (b', result)) :
    Changes clients handed b b' ∧
      ∀ claimed, result = .ok claimed → claimed.uid = s.uid ∧ claimed.present = present := by
  let s' : Session := { s with info := { s.info with
    cleanSession := c.clean, will := c.will, principal := c.principal } }
  have used : s.Used s' := Session.used_of_durable rfl rfl rfl rfl (fun _ => rfl) rfl rfl
  have there : (b.putSession s').session? s'.uid = some s' := by
    rw [session?_putSession]
    exact if_pos rfl
  have bound : Changes clients handed b ((b.putSession s').bind s' conn unique).1 :=
    (Changes.one (.used s' here used)).trans (bind_changes there live conn unique)
  simp only [takeUp, here] at done
  split at done
  · cases done
    exact ⟨bound, fun _ failed => nomatch failed⟩
  · rename_i after stored
    cases done
    refine ⟨bound.trans (.beside (persist_beside stored)), fun claimed same => ?_⟩
    cases same
    exact ⟨rfl, rfl⟩

variable (clients handed) in
theorem takeUp_created {c : Claim} {conn : Option ConnectionId} {unique : Bool}
    {result : Except Failure Claimed}
    (done : (b.create c.id c.clean).1.takeUp c conn unique b.nextUid false = (b', result)) :
    Changes clients handed (b.create c.id c.clean).1 b' ∧
      ∀ claimed, result = .ok claimed → claimed.uid = b.nextUid ∧ claimed.present = false := by
  let new : Session := .new b.nextUid { id := c.id, cleanSession := c.clean } b.settings.mqtt
  have here : (b.create c.id c.clean).1.session? new.uid = some new := by
    rw [create_session?]
    exact if_pos rfl
  exact takeUp_changes clients handed here rfl done

variable (clients handed) in
theorem claim_changes (orderly : b.Orderly) {c : Claim} {conn : Option ConnectionId}
    {unique : Bool} {result : Except Failure Claimed}
    (done : b.claim c conn unique = (b', result)) :
    Changes clients handed b b' ∧
      ∀ claimed, result = .ok claimed → claimed.present = false →
        ∃ before, Changes clients handed b before ∧ before.find? c.id = none ∧
          before.shuttingDown = false ∧ claimed.uid = before.nextUid ∧
          Changes clients handed (before.create c.id c.clean).1 b' := by
  rw [claim_takeUp] at done
  split at done
  · cases done
    exact ⟨.refl b, fun _ failed => nomatch failed⟩
  rename_i running
  have running : b.shuttingDown = false := by simpa using running
  generalize settled : b.settleClaim c = after at done
  obtain ⟨next, outcome⟩ := after
  rcases settleClaim_changes clients handed orderly running settled with
    ⟨e, rfl, changed⟩ | ⟨uid, s, rfl, rfl, present, live⟩ |
    ⟨before, changed, absent, up, rfl, rfl⟩
  · cases done
    exact ⟨changed, fun _ failed => nomatch failed⟩
  · obtain ⟨rfl, _⟩ := orderly.own present
    obtain ⟨changed, same⟩ := takeUp_changes clients handed present live done
    refine ⟨changed, fun claimed ok new => ?_⟩
    rw [(same claimed ok).2] at new
    cases new
  · obtain ⟨entered, same⟩ := takeUp_created clients handed done
    have made : Changes clients handed before (before.create c.id c.clean).1 :=
      .one (.created c.id c.clean absent up)
    refine ⟨(changed.trans made).trans entered, fun claimed ok _ => ?_⟩
    exact ⟨before, changed, absent, up, (same claimed ok).1, entered⟩

end Broker

end MqttBroker
