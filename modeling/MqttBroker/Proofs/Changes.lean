import MqttBroker.Broker.Registry
import MqttBroker.Proofs.Places
import MqttBroker.Proofs.Settling

/-!
What the operations on sessions change, one lemma for each operation. What is not named there is
as it was.
-/

namespace MqttBroker.Broker

def storageWithout (b : Broker) (s : Session) (cleanup : Bool) : Storage.Memory :=
  match s.queues with
  | none => b.storage
  | some q => (q.durable.close b.storage b.clock cleanup).memory

theorem closeQueues_changes (b : Broker) (s : Session) (cleanup : Bool) :
    ∃ events reported connections stats inflight,
      (cleanup = true → inflight.entries = []) ∧ b.closeQueues s cleanup =
        ({ b with storage := b.storageWithout s cleanup, events, reported, connections, stats },
         { s with queues := none, inflight }) := by
  have cleared : cleanup = true → (b.closeQueues s cleanup).2.inflight.entries = [] := by
    rintro rfl
    rfl
  obtain ⟨stats, inflight, closed, ⟨none, same⟩ | ⟨q, w, queued, work, same⟩⟩ :=
    b.closeQueues_frame s cleanup
  · rw [closed] at cleared
    refine ⟨b.events, b.reported, b.connections, stats, inflight, cleared,
      Prod.ext (same.trans ?_) closed⟩
    rw [storageWithout, none]
  · obtain ⟨reported, connections, frame⟩ :=
      ({ b with storage := w.memory } : Broker).doneAll_frame (w.done ++ w.refused)
    rw [frame] at same
    rw [closed] at cleared
    refine ⟨(b.events.doneAll (w.done ++ w.refused)).1, reported, connections, stats, inflight,
      cleared, Prod.ext (same.trans ?_) closed⟩
    rw [storageWithout, queued, work]

inductive Provided (b : Broker) (s : Session) : Storage.Memory → Option SessionQueues → Prop
  | before : s.isSubscribed = true → Provided b s b.storage s.queues
  | now {storage handle} : s.isSubscribed = false →
      b.storage.bucket (Session.bucketName s.info.id) = .ok (storage, handle) →
      Provided b s storage (some (b.freshQueues s handle))

theorem subscribe_changes {b b' : Broker} {uid : SessionUid} {filter : String} {qos : QoS}
    {added : Bool} (done : b.subscribe uid filter qos = .ok (b', added)) :
    ∃ topic s storage exchange stats queues matcher, Topic.parse filter = .ok topic ∧
      b.session? uid = some s ∧ s.closed = false ∧ b.Provided s storage queues ∧
      (s.holds filter = true ∧ added = false ∧ exchange = b.exchange ∧ matcher = s.matcher ∨
        s.holds filter = false ∧ added = true ∧ matcher = (s.matcher.insert topic filter).1 ∧
          ∃ bound, b.exchange.bind filter s.uid = .ok (exchange, bound)) ∧
      b' = ({ b with storage, exchange, stats }).putSession
        { s with queues, matcher,
                 info := { s.info with
                   subscriptions := s.info.subscriptions.insert filter qos } } := by
  obtain ⟨topic, s, start, ready, parsed, present, live, provided, entered⟩ := subscribe_ok done
  have given : ∃ storage queues, b.Provided s storage queues ∧ start = { b with storage } ∧
      ready = { s with queues } := by
    rcases provide_ok provided with ⟨subscribed, rfl, rfl⟩ | ⟨subscribed, opened⟩
    · exact ⟨_, _, .before subscribed, rfl, rfl⟩
    · obtain ⟨storage, handle, bucket, rfl, rfl⟩ := openQueues_ok opened
      exact ⟨_, _, .now subscribed bucket, rfl, rfl⟩
  obtain ⟨storage, queues, given, rfl, rfl⟩ := given
  unfold enterSubscription at entered
  split at entered
  · rename_i held
    cases entered
    exact ⟨topic, s, storage, _, _, queues, _, parsed, present, live, given,
      Or.inl ⟨held, rfl, rfl, rfl⟩, rfl⟩
  · rename_i other
    split at entered
    · cases entered
    · rename_i exchange bound binding
      cases entered
      exact ⟨topic, s, storage, exchange, _, queues, _, parsed, present, live, given,
        Or.inr ⟨Bool.eq_false_iff.mpr other, rfl, rfl, bound, binding⟩, rfl⟩

theorem dropSubscription_ok {b : Broker} {s : Session} {filter : String} {exchange : Exchange}
    {bound : Bool} (unbound : b.exchange.unbind filter s.uid = .ok (exchange, bound)) :
    ∃ stats matcher,
      (matcher = s.matcher ∨ ∃ topic, matcher = (s.matcher.remove topic filter).1) ∧
      b.dropSubscription s filter = .ok
      (if s.info.subscriptions.erase filter = [] then
        let closed := closeQueues { b with exchange, stats } { s with matcher, info := { s.info with
          subscriptions := s.info.subscriptions.erase filter } } true
        closed.1.putSession closed.2
      else ({ b with exchange, stats } : Broker).putSession { s with matcher, info := { s.info with
        subscriptions := s.info.subscriptions.erase filter } }) := by
  simp only [dropSubscription, unbound, Session.isSubscribed]
  cases Topic.parse filter with
  | error e =>
      cases left : s.info.subscriptions.erase filter with
      | nil => exact ⟨_, _, Or.inl rfl, rfl⟩
      | cons first rest => exact ⟨_, _, Or.inl rfl, rfl⟩
  | ok topic =>
      cases left : s.info.subscriptions.erase filter with
      | nil => exact ⟨_, _, Or.inr ⟨topic, rfl⟩, rfl⟩
      | cons first rest => exact ⟨_, _, Or.inr ⟨topic, rfl⟩, rfl⟩

theorem unsubscribe_changes {b b' : Broker} {uid : SessionUid} {filter : String} {removed : Bool}
    (done : b.unsubscribe uid filter = .ok (b', removed)) :
    (b' = b ∧ removed = false ∧ ∀ s, b.session? uid = some s → s.holds filter = false) ∨
      ∃ s subscriptions exchange bound storage events reported connections stats queues inflight
        matcher,
        b.session? uid = some s ∧ s.holds filter = true ∧ removed = true ∧
        subscriptions = s.info.subscriptions.erase filter ∧
        b.exchange.unbind filter s.uid = .ok (exchange, bound) ∧
        (subscriptions ≠ [] ∧ storage = b.storage ∧ queues = s.queues ∨
          subscriptions = [] ∧ storage = b.storageWithout s true ∧ queues = none) ∧
        (s.inflight.entries = [] → inflight.entries = []) ∧
        (matcher = s.matcher ∨ ∃ topic, matcher = (s.matcher.remove topic filter).1) ∧
        b' = ({ b with exchange, storage, events, reported, connections, stats }).putSession
          { s with queues, inflight, matcher, info := { s.info with subscriptions } } := by
  unfold unsubscribe at done
  split at done
  · rename_i absent
    cases done
    exact Or.inl ⟨rfl, rfl, fun s present => by rw [absent] at present; cases present⟩
  · rename_i s present
    split at done
    · rename_i held
      refine Or.inr ?_
      cases unbound : b.exchange.unbind filter s.uid with
      | error e =>
          simp only [dropSubscription, unbound] at done
          cases done
      | ok found =>
          obtain ⟨exchange, bound⟩ := found
          obtain ⟨stats, matcher, removed, dropped⟩ := dropSubscription_ok unbound
          rw [dropped] at done
          by_cases last : s.info.subscriptions.erase filter = []
          · obtain ⟨events, reported, connections, stats, inflight, cleared, closed⟩ :=
              closeQueues_changes { b with exchange, stats } { s with matcher, info := { s.info with
                subscriptions := s.info.subscriptions.erase filter } } true
            rw [if_pos last] at done
            cases done
            exact ⟨s, _, exchange, bound, b.storageWithout s true, events, reported, connections,
              stats, none, inflight, matcher, present, held, rfl, rfl, unbound,
              Or.inr ⟨last, rfl, rfl⟩, fun _ => cleared rfl, removed,
              congrArg (fun after => after.1.putSession after.2) closed⟩
          · rw [if_neg last] at done
            cases done
            exact ⟨s, _, exchange, bound, b.storage, _, _, _, stats, s.queues, _, matcher, present,
              held, rfl, rfl, unbound, Or.inl ⟨last, rfl, rfl⟩, id, removed, rfl⟩
    · rename_i other
      cases done
      refine Or.inl ⟨rfl, rfl, fun s' again => ?_⟩
      rw [present] at again
      cases again
      simpa using other

theorem isolate_changes (b : Broker) (s : Session) :
    ∃ connections stats, b.isolate s =
      { b with exchange := (b.exchange.unbindAll s.uid).1, connections, stats } := by
  unfold isolate
  dsimp only
  split
  · exact ⟨_, _, rfl⟩
  · exact ⟨b.connections, _, rfl⟩

theorem deleteEntry_ok {m m' : Storage.Memory} {key : String}
    (deleted : m.deleteEntry key = .ok m') :
    m.closed = false ∧ m' = { m with entries := m.entries.erase key } := by
  simp only [Storage.Memory.deleteEntry, Storage.Memory.checkOpen, bind_eq_ok] at deleted
  obtain ⟨_, opened, same⟩ := deleted
  cases same
  refine ⟨?_, rfl⟩
  split at opened
  · cases opened
  · rename_i live
    simpa using live

theorem setEntry_ok {m m' : Storage.Memory} {key : String} {value : Bytes}
    (stored : m.setEntry key value = .ok m') :
    m.closed = false ∧ m' = { m with entries := m.entries.insert key value } := by
  simp only [Storage.Memory.setEntry, Storage.Memory.checkOpen, bind_eq_ok] at stored
  obtain ⟨_, opened, same⟩ := stored
  cases same
  refine ⟨?_, rfl⟩
  split at opened
  · cases opened
  · rename_i live
    simpa using live

theorem closeSession_changes {b : Broker} {uid : SessionUid} {s : Session}
    (present : b.session? uid = some s) (live : s.closed = false) (cleanup : Bool) :
    ∃ entries events reported connections stats inflight,
      (entries = (b.storageWithout s cleanup).entries ∨
        cleanup = true ∧
          entries = (b.storageWithout s cleanup).entries.erase (Session.key s.info.id)) ∧
      (cleanup = true → inflight.entries = []) ∧
      (b.closeSession uid cleanup).1 =
        ({ b with
            exchange := (b.exchange.unbindAll s.uid).1
            storage := { b.storageWithout s cleanup with entries }
            events, reported, connections, stats }).putSession
          { s with closed := true, client := none, queues := none, inflight } := by
  obtain ⟨connections, stats, isolated⟩ := b.isolate_changes s
  obtain ⟨events, reported, connections, stats, inflight, cleared, closed⟩ := closeQueues_changes
    { b with exchange := (b.exchange.unbindAll s.uid).1, connections, stats }
    { s with closed := true, client := none, inflight := s.inflight.close } cleanup
  simp only [closeSession, present, live, Bool.false_eq_true, if_false, retire, isolated, closed]
  cases cleanup with
  | false => exact ⟨_, events, reported, connections, stats, inflight, Or.inl rfl, cleared, rfl⟩
  | true =>
      rw [if_pos rfl]
      split
      · rename_i storage deleted
        obtain ⟨_, rfl⟩ := deleteEntry_ok deleted
        exact ⟨_, events, reported, connections, stats, inflight, Or.inr ⟨rfl, rfl⟩, cleared, rfl⟩
      · exact ⟨_, events, reported, connections, stats, inflight, Or.inl rfl, cleared, rfl⟩

end MqttBroker.Broker
