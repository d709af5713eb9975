import MqttBroker.Broker.Subscriptions
import MqttBroker.Proofs.Exchange

/-!
What subscribing a session changes.
-/

namespace MqttBroker.Broker

theorem session?_putSession (b : Broker) (s : Session) (uid : SessionUid) :
    (b.putSession s).session? uid = if uid = s.uid then some s else b.session? uid := by
  simp [session?, putSession, Table.get?_insert]

theorem session?_unused {b : Broker}
    (own : ∀ uid s, b.session? uid = some s → s.uid = uid ∧ uid < b.nextUid) :
    b.session? b.nextUid = none := by
  cases present : b.session? b.nextUid with
  | none => rfl
  | some s => exact absurd (own _ s present).2 (Nat.lt_irrefl _)

def freshQueues (b : Broker) (s : Session) (handle : Storage.Handle) : SessionQueues where
  temporary := .new b.settings.mqtt.maxQos0Queue b.settings.mqtt.qos0Overrun
  durable :=
    { handle, queue := .new (.ofSettings b.settings.mqtt) s.inflight.capacity b.now }

theorem openQueues_ok {b b' : Broker} {s s' : Session} (opened : b.openQueues s = .ok (b', s')) :
    ∃ storage handle, b.storage.bucket (Session.bucketName s.info.id) = .ok (storage, handle) ∧
      b' = { b with storage } ∧ s' = { s with queues := some (b.freshQueues s handle) } := by
  simp only [openQueues, StoredQueue.openOver, bind_eq_ok] at opened
  obtain ⟨_, ⟨_, bucket, made⟩, same⟩ := opened
  cases made
  cases same
  exact ⟨_, _, bucket, rfl, rfl⟩

theorem provide_ok {b b' : Broker} {s s' : Session} (provided : b.provide s = .ok (b', s')) :
    (s.isSubscribed = true ∧ b' = b ∧ s' = s) ∨
      (s.isSubscribed = false ∧ b.openQueues s = .ok (b', s')) := by
  unfold provide at provided
  split at provided
  · rename_i subscribed
    cases provided
    exact Or.inl ⟨subscribed, rfl, rfl⟩
  · rename_i subscribed
    cases opened : b.openQueues s with
    | error e =>
        rw [opened] at provided
        cases provided
    | ok start =>
        rw [opened] at provided
        cases provided
        exact Or.inr ⟨by simpa using subscribed, rfl⟩

theorem provide_frame {b b' : Broker} {s s' : Session} (provided : b.provide s = .ok (b', s')) :
    b'.exchange = b.exchange ∧ s'.uid = s.uid ∧ s'.info = s.info ∧ s'.matcher = s.matcher := by
  rcases provide_ok provided with ⟨_, rfl, rfl⟩ | ⟨_, opened⟩
  · exact ⟨rfl, rfl, rfl, rfl⟩
  · obtain ⟨_, _, _, rfl, rfl⟩ := openQueues_ok opened
    exact ⟨rfl, rfl, rfl, rfl⟩

theorem enterSubscription_ok {b b' : Broker} {s : Session} {filter : String} {topic : Topic}
    {qos : QoS} {added : Bool} (entered : b.enterSubscription s filter topic qos = .ok (b', added)) :
    ∃ info, info = { s.info with subscriptions := s.info.subscriptions.insert filter qos } ∧
      ((s.holds filter = true ∧ b' = b.putSession { s with info }) ∨
        (s.holds filter = false ∧ ∃ exchange bound stats,
          b.exchange.bind filter s.uid = .ok (exchange, bound) ∧
          b' = ({ b with exchange, stats }).putSession
            { s with info, matcher := (s.matcher.insert topic filter).1 })) := by
  refine ⟨_, rfl, ?_⟩
  unfold enterSubscription at entered
  split at entered
  · rename_i held
    cases entered
    exact Or.inl ⟨held, rfl⟩
  · rename_i other
    split at entered
    · cases entered
    · rename_i exchange bound found
      cases entered
      exact Or.inr ⟨by simpa using other, exchange, bound, _, found, rfl⟩

theorem subscribe_ok {b b' : Broker} {uid : SessionUid} {filter : String} {qos : QoS}
    {added : Bool} (done : b.subscribe uid filter qos = .ok (b', added)) :
    ∃ topic s start ready, Topic.parse filter = .ok topic ∧ b.session? uid = some s ∧
      s.closed = false ∧ b.provide s = .ok (start, ready) ∧
      start.enterSubscription ready filter topic qos = .ok (b', added) := by
  unfold subscribe at done
  split at done
  · cases done
  · cases done
  · rename_i topic s parsed present
    split at done
    · cases done
    · rename_i live
      split at done
      · cases done
      · rename_i start ready provided
        exact ⟨topic, s, start, ready, parsed, present, by simpa using live, provided, done⟩

theorem unsubscribe_ok {b b' : Broker} {uid : SessionUid} {filter : String} {removed : Bool}
    (done : b.unsubscribe uid filter = .ok (b', removed)) :
    b' = b ∨ ∃ s exchange stats matcher info, b.session? uid = some s ∧
      (∀ topic w, w ∈ exchange.recipients topic → w ∈ b.exchange.recipients topic) ∧
      ((!info.subscriptions.isEmpty) = true ∧
          b' = ({ b with exchange, stats }).putSession { s with matcher, info } ∨
        b' = (({ b with exchange, stats }).closeQueues { s with matcher, info } true).1.putSession
          (({ b with exchange, stats }).closeQueues { s with matcher, info } true).2) := by
  unfold unsubscribe at done
  split at done
  · cases done
    exact Or.inl rfl
  · rename_i s present
    split at done
    · cases unbound : b.exchange.unbind filter s.uid with
      | error e =>
          simp only [dropSubscription, unbound] at done
          cases done
      | ok found =>
          obtain ⟨exchange, bound⟩ := found
          have fewer : ∀ topic w, w ∈ exchange.recipients topic → w ∈ b.exchange.recipients topic :=
            fun topic w => Exchange.mem_recipients_unbind unbound
          simp only [dropSubscription, unbound, Session.isSubscribed] at done
          cases last : List.isEmpty (s.info.subscriptions.erase filter) with
          | false =>
              simp only [last] at done
              cases done
              exact Or.inr ⟨s, exchange, _, _, _, present, fewer, Or.inl ⟨by simp [last], rfl⟩⟩
          | true =>
              simp only [last] at done
              cases done
              exact Or.inr ⟨s, exchange, _, _, _, present, fewer, Or.inr rfl⟩
    · cases done
      exact Or.inl rfl

end MqttBroker.Broker
