import MqttBroker.Proofs.Queueing

/-!
The states of a session between its calls. While it is open it has queues if it is subscribed to
anything, and its matcher finds its filters. A call to subscribe that fails has done nothing: the
steps that come after the first change cannot fail.
-/

namespace MqttBroker

namespace Broker

variable {b b' : Broker}

theorem putSession_putSession {s s' : Session} (same : s.uid = s'.uid) :
    (b.putSession s).putSession s' = b.putSession s' := by
  unfold putSession
  rw [same]
  dsimp only
  rw [Table.insert_insert]

/-- Subscribes a session step by step, each step in place: queues, table of subscriptions, matcher,
exchange, gauge. What was done before a step that fails is not taken back. -/
def subscribeInPlace (b : Broker) (uid : SessionUid) (filter : String) (qos : QoS) :
    Broker × Except Failure Bool :=
  match Topic.parse filter, b.session? uid with
  | .error e, _ => (b, .error (.topic e))
  | .ok _, none => (b, .error (.protocol .serviceUnavailable))
  | .ok topic, some s =>
    if s.closed then (b, .error (.protocol .serviceUnavailable))
    else match b.provide s with
      | .error e => (b, .error e)
      | .ok (b, s) =>
        let b := b.putSession s
        let added := !s.holds filter
        let s := { s with info := { s.info with
          subscriptions := s.info.subscriptions.insert filter qos } }
        let b := b.putSession s
        if added then
          let s := { s with matcher := (s.matcher.insert topic filter).1 }
          let b := b.putSession s
          match b.exchange.bind filter s.uid with
          | .error e => (b, .error (.topic e))
          | .ok (exchange, _) =>
            let subscriptions := b.stats.subscriptions.increment
            ({ b with exchange, stats := { b.stats with subscriptions } }, .ok true)
        else (b, .ok false)

theorem subscribeInPlace_eq (b : Broker) (uid : SessionUid) (filter : String) (qos : QoS) :
    b.subscribeInPlace uid filter qos = match b.subscribe uid filter qos with
      | .ok (after, added) => (after, .ok added)
      | .error e => (b, .error e) := by
  unfold subscribeInPlace subscribe
  cases parsed : Topic.parse filter with
  | error e => rfl
  | ok topic =>
      cases b.session? uid with
      | none => rfl
      | some s =>
          dsimp only
          split
          · rfl
          · cases b.provide s with
            | error e => rfl
            | ok ready =>
                obtain ⟨start, s⟩ := ready
                obtain ⟨x, bound, binding⟩ := Exchange.bind_succeeds parsed start.exchange s.uid
                have stored : ∀ s' : Session, (start.putSession s').exchange = start.exchange :=
                  fun _ => rfl
                unfold enterSubscription
                cases held : s.holds filter with
                | true =>
                    simp only [held, Bool.not_true, Bool.false_eq_true, if_false, if_true,
                      putSession_putSession]
                | false =>
                    simp only [held, Bool.not_false, Bool.false_eq_true, if_false, if_true,
                      putSession_putSession, stored, binding]
                    rfl

end Broker

structure Session.Coherent (s : Session) : Prop where
  neat : s.matcher.Neat
  parsed : ∀ filter, s.holds filter = true → ∃ pattern, Topic.parse filter = .ok pattern
  matched : ∀ filter pattern, s.matcher.contains pattern filter = true ↔
    s.holds filter = true ∧ Topic.parse filter = .ok pattern
  supplied : s.closed = false → s.queues.isSome = s.isSubscribed
  emptied : s.closed = true → s.queues = none

namespace Session.Coherent

variable {s s' : Session}

theorem new (uid : SessionUid) (info : SessionInfo) (settings : MqttSettings) :
    (Session.new uid { info with subscriptions := [] } settings).Coherent where
  neat := TopicTree.neat_empty
  parsed _ held := nomatch held
  matched filter pattern := by
    obtain ⟨levels⟩ := pattern
    constructor
    · intro bound
      cases levels <;> cases bound
    · rintro ⟨held, _⟩
      cases held
  supplied _ := rfl
  emptied closed := nomatch closed

theorem mem_find_iff (coherent : s.Coherent) {topic filter : String} :
    filter ∈ s.matcher.find topic ↔ s.holds filter = true ∧
      ∃ pattern, Topic.parse filter = .ok pattern ∧ pattern.matchesName topic = true := by
  rw [TopicTree.mem_find_iff coherent.neat]
  constructor
  · rintro ⟨pattern, bound, selects⟩
    obtain ⟨held, parsed⟩ := (coherent.matched filter pattern).mp bound
    exact ⟨held, pattern, parsed, selects⟩
  · rintro ⟨held, pattern, parsed, selects⟩
    exact ⟨pattern, (coherent.matched filter pattern).mpr ⟨held, parsed⟩, selects⟩

theorem inserted (coherent : s.Coherent) {filter : String} {topic : Topic} {qos : QoS}
    (read : Topic.parse filter = .ok topic)
    (subscriptions : s'.info.subscriptions = s.info.subscriptions.insert filter qos)
    (matcher : s.holds filter = true ∧ s'.matcher = s.matcher ∨
      s'.matcher = (s.matcher.insert topic filter).1)
    (live : s'.closed = false) (supplied : s'.queues.isSome = true) : s'.Coherent := by
  have holds : ∀ other, s'.holds other = true ↔ other = filter ∨ s.holds other = true := by
    intro other
    rw [Session.holds, subscriptions, Broker.Session.holds_insert, Bool.or_eq_true, decide_eq_true_eq]
  have filled : s'.isSubscribed = true := isSubscribed_of_holds ((holds filter).mpr (Or.inl rfl))
  constructor
  case neat =>
    rcases matcher with ⟨_, same⟩ | same
    · exact same ▸ coherent.neat
    · exact same ▸ coherent.neat.insert read filter
  case parsed =>
    intro other held
    rcases (holds other).mp held with rfl | before
    · exact ⟨topic, read⟩
    · exact coherent.parsed other before
  case matched =>
    intro other pattern
    rw [holds]
    rcases matcher with ⟨held, same⟩ | same
    · rw [same, coherent.matched]
      constructor
      · rintro ⟨before, parsed⟩
        exact ⟨Or.inr before, parsed⟩
      · rintro ⟨rfl | before, parsed⟩
        · exact ⟨held, parsed⟩
        · exact ⟨before, parsed⟩
    · rw [same, TopicTree.contains_insert, coherent.matched]
      constructor
      · rintro (⟨before, parsed⟩ | ⟨rfl, rfl⟩)
        · exact ⟨Or.inr before, parsed⟩
        · exact ⟨Or.inl rfl, read⟩
      · rintro ⟨rfl | before, parsed⟩
        · exact Or.inr ⟨rfl, Except.ok.inj (parsed.symm.trans read)⟩
        · exact Or.inl ⟨before, parsed⟩
  case supplied => exact fun _ => supplied.trans filled.symm
  case emptied =>
    intro closed
    rw [live] at closed
    cases closed

theorem erased (coherent : s.Coherent) {filter : String} {topic : Topic}
    (read : Topic.parse filter = .ok topic)
    (subscriptions : s'.info.subscriptions = s.info.subscriptions.erase filter)
    (matcher : s'.matcher = (s.matcher.remove topic filter).1) (closed : s'.closed = s.closed)
    (held : s.holds filter = true)
    (queues : s'.queues = if s'.isSubscribed then s.queues else none) : s'.Coherent := by
  have holds : ∀ other, s'.holds other = true ↔ other ≠ filter ∧ s.holds other = true := by
    intro other
    rw [Session.holds, subscriptions, Broker.Session.holds_erase]
    simp
  constructor
  case neat => exact matcher ▸ coherent.neat.remove topic filter
  case parsed => exact fun other kept => coherent.parsed other ((holds other).mp kept).2
  case matched =>
    intro other pattern
    rw [holds, matcher, TopicTree.contains_remove coherent.neat, coherent.matched]
    constructor
    · rintro ⟨⟨before, parsed⟩, apart⟩
      refine ⟨⟨?_, before⟩, parsed⟩
      rintro rfl
      exact apart ⟨rfl, Except.ok.inj (parsed.symm.trans read)⟩
    · rintro ⟨⟨other, before⟩, parsed⟩
      exact ⟨⟨before, parsed⟩, fun same => other same.1⟩
  case supplied =>
    intro live
    have before := coherent.supplied (closed.symm.trans live)
    rw [queues]
    split
    · rename_i left
      rw [left, before, isSubscribed_of_holds held]
    · rename_i last
      simpa using last
  case emptied =>
    intro gone
    rw [queues, coherent.emptied (closed.symm.trans gone), ite_self]

theorem retired (coherent : s.Coherent) (info : s'.info = s.info) (matcher : s'.matcher = s.matcher)
    (closed : s'.closed = true) (queues : s'.queues = none) : s'.Coherent where
  neat := matcher ▸ coherent.neat
  parsed filter held := coherent.parsed filter (by rwa [Session.holds, info] at held)
  matched filter pattern := by
    rw [matcher, Session.holds, info]
    exact coherent.matched filter pattern
  supplied live := by
    rw [closed] at live
    cases live
  emptied _ := queues

end Session.Coherent

namespace Broker

variable {b b' : Broker} {uid : SessionUid} {s : Session}

inductive Refuses (b : Broker) (s : Session) (filter : String) : Failure → Prop
  | malformed {e} : Topic.parse filter = .error e → Refuses b s filter (.topic e)
  | closed : s.closed = true → Refuses b s filter (.protocol .serviceUnavailable)
  | unopened {e} : s.isSubscribed = false →
      b.storage.bucket (Session.bucketName s.info.id) = .error e → Refuses b s filter (.storage e)

theorem provide_refused {filter : String} {e : Failure} (failed : b.provide s = .error e) :
    b.Refuses s filter e := by
  unfold provide at failed
  split at failed
  · cases failed
  · rename_i unsubscribed
    cases opened : b.storage.bucket (Session.bucketName s.info.id) with
    | error cause =>
        simp only [openQueues, StoredQueue.openOver, opened] at failed
        cases failed
        exact .unopened (Bool.eq_false_iff.mpr unsubscribed) opened
    | ok bucket =>
        simp only [openQueues, StoredQueue.openOver, opened] at failed
        cases failed

/-- Once there are queues, nothing fails that is still to be done for a filter that was read. -/
theorem subscribe_refused {filter : String} {qos : QoS} {e : Failure}
    (present : b.session? uid = some s) (failed : b.subscribe uid filter qos = .error e) :
    b.Refuses s filter e := by
  unfold subscribe at failed
  rw [present] at failed
  cases parsed : Topic.parse filter with
  | error cause =>
      rw [parsed] at failed
      cases failed
      exact .malformed parsed
  | ok topic =>
      simp only [parsed] at failed
      split at failed
      · rename_i closed
        cases failed
        exact .closed closed
      · split at failed
        · rename_i cause provided
          cases failed
          exact provide_refused provided
        · rename_i start ready provided
          obtain ⟨x, bound, binding⟩ := Exchange.bind_succeeds parsed start.exchange ready.uid
          unfold enterSubscription at failed
          split at failed
          · cases failed
          · rw [binding] at failed
            cases failed

theorem subscribe_coherent {filter : String} {qos : QoS} {added : Bool}
    (present : b.session? uid = some s) (own : s.uid = uid) (coherent : s.Coherent)
    (done : b.subscribe uid filter qos = .ok (b', added)) :
    s.closed = false ∧ added = !s.holds filter ∧ ∃ s', b'.session? uid = some s' ∧
      s'.uid = uid ∧ s'.Coherent ∧ s'.closed = false ∧ s'.info = { s.info with
        subscriptions := s.info.subscriptions.insert filter qos } := by
  obtain ⟨topic, x, storage, exchange, stats, queues, matcher, read, here, live, provided, entered,
    rfl⟩ := subscribe_changes done
  cases present.symm.trans here
  have supplied : queues.isSome = true := by
    cases provided with
    | before had => exact (coherent.supplied live).trans had
    | now _ _ => rfl
  have fresh : added = !s.holds filter ∧ (s.holds filter = true ∧ matcher = s.matcher ∨
      matcher = (s.matcher.insert topic filter).1) := by
    rcases entered with ⟨held, rfl, _, same⟩ | ⟨absent, rfl, grown, _⟩
    · exact ⟨by rw [held]; rfl, Or.inl ⟨held, same⟩⟩
    · exact ⟨by rw [absent]; rfl, Or.inr grown⟩
  let s' : Session := { s with queues, matcher, info := { s.info with
    subscriptions := s.info.subscriptions.insert filter qos } }
  refine ⟨live, fresh.1, s', ?_, own, ?_, live, rfl⟩
  · rw [session?_putSession]
    exact if_pos own.symm
  · exact coherent.inserted read rfl fresh.2 live supplied

theorem unsubscribe_held {filter : String} (present : b.session? uid = some s) (own : s.uid = uid)
    (coherent : s.Coherent) (held : s.holds filter = true) :
    ∃ b' s', b.unsubscribe uid filter = .ok (b', true) ∧ b'.session? uid = some s' ∧
      s'.uid = uid ∧ s'.Coherent ∧ s'.closed = s.closed ∧ s'.info = { s.info with
        subscriptions := s.info.subscriptions.erase filter } := by
  obtain ⟨pattern, read⟩ := coherent.parsed filter held
  obtain ⟨x, removed, unbound⟩ := Exchange.unbind_succeeds read b.exchange s.uid
  let fewer : Session := { s with
    matcher := (s.matcher.remove pattern filter).1
    info := { s.info with subscriptions := s.info.subscriptions.erase filter } }
  let start : Broker := { b with exchange := x, stats :=
    { b.stats with subscriptions := b.stats.subscriptions.decrement } }
  have done : b.unsubscribe uid filter = .ok (if fewer.isSubscribed then start.putSession fewer
      else (start.closeQueues fewer true).1.putSession (start.closeQueues fewer true).2, true) := by
    simp only [unsubscribe, present, held, if_true, dropSubscription, read, unbound, Except.map]
    split <;> rfl
  cases left : fewer.isSubscribed with
  | true =>
      rw [left, if_pos rfl] at done
      refine ⟨_, fewer, done, ?_, own, ?_, rfl, rfl⟩
      · rw [session?_putSession]
        exact if_pos own.symm
      · exact coherent.erased read rfl rfl rfl held (by rw [left]; rfl)
  | false =>
      obtain ⟨events, reported, connections, stats, inflight, _, closed⟩ :=
        closeQueues_changes start fewer true
      rw [left, if_neg Bool.false_ne_true, closed] at done
      refine ⟨_, { fewer with queues := none, inflight }, done, ?_, own, ?_, rfl, rfl⟩
      · rw [session?_putSession]
        exact if_pos own.symm
      · have last : ({ fewer with queues := none, inflight } : Session).isSubscribed = false := left
        exact coherent.erased read rfl rfl rfl held (by rw [last]; rfl)

theorem unsubscribe_unheld {filter : String} (present : b.session? uid = some s)
    (unheld : s.holds filter = false) : b.unsubscribe uid filter = .ok (b, false) := by
  simp only [unsubscribe, present, unheld, Bool.false_eq_true, if_false]

theorem closeSession_coherent (present : b.session? uid = some s) (own : s.uid = uid)
    (coherent : s.Coherent) (cleanup : Bool) :
    ∃ s', (b.closeSession uid cleanup).1.session? uid = some s' ∧ s'.uid = uid ∧ s'.Coherent ∧
      s'.closed = true ∧ s'.info = s.info := by
  cases closed : s.closed with
  | true =>
      refine ⟨s, ?_, own, coherent, closed, rfl⟩
      simp only [closeSession, present, closed, if_true]
  | false =>
      obtain ⟨entries, events, reported, connections, stats, inflight, _, _, after⟩ :=
        closeSession_changes present closed cleanup
      refine ⟨{ s with closed := true, client := none, queues := none, inflight }, ?_, own,
        coherent.retired rfl rfl rfl rfl, rfl, rfl⟩
      rw [after, session?_putSession]
      exact if_pos own.symm

inductive SessionCall
  | subscribe (filter : String) (qos : QoS)
  | unsubscribe (filter : String)
  | close (cleanup : Bool)
  | elsewhere (other : Broker)

def call (uid : SessionUid) (b : Broker) : SessionCall → Broker
  | .subscribe filter qos => (b.subscribeInPlace uid filter qos).1
  | .unsubscribe filter =>
    match b.unsubscribe uid filter with
    | .ok (after, _) => after
    | .error _ => b
  | .close cleanup => (b.closeSession uid cleanup).1
  | .elsewhere other =>
    match b.session? uid with
    | none => b
    | some s => other.putSession s

def callAll (b : Broker) (uid : SessionUid) (calls : List SessionCall) : Broker :=
  calls.foldl (call uid) b

theorem call_coherent (present : b.session? uid = some s) (own : s.uid = uid)
    (coherent : s.Coherent) (c : SessionCall) :
    ∃ s', (b.call uid c).session? uid = some s' ∧ s'.uid = uid ∧ s'.Coherent ∧
      (s'.closed = true ↔ s.closed = true ∨ ∃ cleanup, c = .close cleanup) := by
  cases c with
  | subscribe filter qos =>
      rw [call, subscribeInPlace_eq]
      cases done : b.subscribe uid filter qos with
      | error e => exact ⟨s, present, own, coherent, by simp⟩
      | ok result =>
          obtain ⟨live, _, s', found, same, after, open_, _⟩ :=
            subscribe_coherent present own coherent done
          exact ⟨s', found, same, after, by simp [live, open_]⟩
  | unsubscribe filter =>
      cases held : s.holds filter with
      | true =>
          obtain ⟨after, s', done, found, same, coherent', closed, _⟩ :=
            unsubscribe_held present own coherent held
          rw [call, done]
          exact ⟨s', found, same, coherent', by simp [closed]⟩
      | false =>
          rw [call, unsubscribe_unheld present held]
          exact ⟨s, present, own, coherent, by simp⟩
  | close cleanup =>
      obtain ⟨s', found, same, after, closed, _⟩ :=
        closeSession_coherent present own coherent cleanup
      exact ⟨s', found, same, after, by simp [closed]⟩
  | elsewhere other =>
      rw [call, present]
      refine ⟨s, ?_, own, coherent, by simp⟩
      rw [session?_putSession]
      exact if_pos own.symm

theorem callAll_coherent (present : b.session? uid = some s) (own : s.uid = uid)
    (coherent : s.Coherent) (calls : List SessionCall) :
    ∃ s', (b.callAll uid calls).session? uid = some s' ∧ s'.uid = uid ∧ s'.Coherent ∧
      (s'.closed = true ↔ s.closed = true ∨ ∃ cleanup, .close cleanup ∈ calls) := by
  induction calls generalizing b s with
  | nil => exact ⟨s, present, own, coherent, by simp⟩
  | cons c rest ih =>
      obtain ⟨s₁, found, same, coherent₁, closed⟩ := call_coherent present own coherent c
      obtain ⟨s₂, found₂, same₂, coherent₂, closed₂⟩ := ih found same coherent₁
      refine ⟨s₂, found₂, same₂, coherent₂, ?_⟩
      rw [closed₂, closed, or_assoc]
      simp only [List.mem_cons, exists_or, eq_comm]

/-- Whatever is subscribed and unsubscribed, and whatever becomes of the broker between the calls, a
session that is open has queues if and only if it has subscriptions, and its matcher finds the
filters of those that select a topic, each once. To subscribe it fails for one of three reasons
only, and then no step has been done. To unsubscribe it from what it has not changes nothing. A
session that was closed has no queues, and is never subscribed again. -/
theorem session_states {info : SessionInfo} {settings : MqttSettings}
    (new : b.session? uid = some (Session.new uid { info with subscriptions := [] } settings))
    (calls : List SessionCall) {after : Broker} (reached : after = b.callAll uid calls) :
    ∃ s, after.session? uid = some s ∧
      (s.closed = true ↔ ∃ cleanup, .close cleanup ∈ calls) ∧
      (s.closed = false → (s.queues.isSome = true ↔ s.info.subscriptions ≠ [])) ∧
      (s.closed = true → s.queues = none ∧ ∀ filter qos done,
        after.subscribe uid filter qos ≠ .ok done) ∧
      (∀ topic, (s.matcher.find topic).Nodup ∧ ∀ filter, filter ∈ s.matcher.find topic ↔
        s.holds filter = true ∧ ∃ pattern, Topic.parse filter = .ok pattern ∧
          pattern.matchesName topic = true) ∧
      (∀ filter qos, match after.subscribe uid filter qos with
        | .error e => after.subscribeInPlace uid filter qos = (after, .error e) ∧
            after.Refuses s filter e
        | .ok (later, added) => after.subscribeInPlace uid filter qos = (later, .ok added) ∧
            added = (!s.holds filter) ∧ ∃ s', later.session? uid = some s' ∧ s'.info =
              { s.info with subscriptions := s.info.subscriptions.insert filter qos }) ∧
      (∀ filter, s.holds filter = false → after.unsubscribe uid filter = .ok (after, false)) ∧
      (∀ filter, s.holds filter = true → ∃ later s',
        after.unsubscribe uid filter = .ok (later, true) ∧ later.session? uid = some s' ∧
          s'.info = { s.info with subscriptions := s.info.subscriptions.erase filter }) := by
  subst reached
  obtain ⟨s, present, own, coherent, closed⟩ :=
    callAll_coherent new rfl (.new uid info settings) calls
  refine ⟨s, present, ?_, ?_, ?_, ?_, ?_, ?_, ?_⟩
  · rw [closed]
    simp [Session.new]
  · intro live
    rw [coherent.supplied live, Session.isSubscribed]
    simp
  · intro gone
    refine ⟨coherent.emptied gone, ?_⟩
    intro filter qos done subscribed
    have live := (subscribe_coherent present own coherent subscribed).1
    rw [gone] at live
    cases live
  · intro topic
    exact ⟨s.matcher.find_nodup topic, fun filter => coherent.mem_find_iff⟩
  · intro filter qos
    rw [subscribeInPlace_eq]
    cases done : (b.callAll uid calls).subscribe uid filter qos with
    | error e => exact ⟨rfl, subscribe_refused present done⟩
    | ok result =>
        obtain ⟨_, fresh, s', found, _, _, _, info⟩ := subscribe_coherent present own coherent done
        exact ⟨rfl, fresh, s', found, info⟩
  · intro filter unheld
    exact unsubscribe_unheld present unheld
  · intro filter held
    obtain ⟨later, s', done, found, _, _, _, info⟩ := unsubscribe_held present own coherent held
    exact ⟨later, s', done, found, info⟩

def retriedSubscription : List SessionCall :=
  [.elsewhere (new {} { closed := true } 0 0), .subscribe "a/+" .atLeastOnce,
    .elsewhere (new {} {} 0 0), .subscribe "a/+" .atLeastOnce, .subscribe "a/b" .atMostOnce,
    .unsubscribe "a/+"]

theorem retriedSubscription_states : ∃ s,
    (((new {} {} 0 0).create "client" true).1.callAll 1 retriedSubscription).session? 1 = some s ∧
      s.closed = false ∧ s.queues.isSome = true ∧ "a/b" ∈ s.matcher.find "a/b" ∧
      "a/+" ∉ s.matcher.find "a/b" := by
  have made : ((new {} {} 0 0).create "client" true).1.session? 1 = some (Session.new 1
      { { id := "client", cleanSession := true : SessionInfo } with subscriptions := [] } {}) := rfl
  obtain ⟨s, present, closed, queues, _, found, _⟩ := session_states made retriedSubscription rfl
  have live : s.closed = false := by
    simpa [retriedSubscription] using closed
  have held : s.info.subscriptions = [("a/b", .atMostOnce)] := by
    have final : (((((new {} {} 0 0).create "client" true).1.callAll 1
        retriedSubscription).session? 1).map fun s => s.info.subscriptions) =
          some [("a/b", .atMostOnce)] := by decide
    rw [present] at final
    exact Option.some.inj final
  have holds : ∀ filter, s.holds filter = true ↔ filter = "a/b" := by
    intro filter
    rw [Session.holds, held, ← Table.mem_keys]
    simp [Table.keys]
  refine ⟨s, present, live, ?_, ?_, ?_⟩
  · rw [queues live, held]
    simp
  · rw [(found "a/b").2, holds]
    exact ⟨rfl, ⟨[.normal "a", .normal "b"]⟩, by decide, by decide⟩
  · rw [(found "a/b").2, holds]
    rintro ⟨same, _⟩
    exact absurd same (by decide)

end Broker

end MqttBroker
