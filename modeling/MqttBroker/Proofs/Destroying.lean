import MqttBroker.Proofs.Mirroring
import MqttBroker.Proofs.Takeover

/-!
Destroying a session in full: what is left of it and of its record, who is told, and how far the
gauges move.
-/

namespace MqttBroker.Broker

variable {b b' : Broker}

/-! Closing -/

theorem isolate_stats (b : Broker) (s : Session) :
    (b.isolate s).stats = { b.stats with
      subscriptions := b.stats.subscriptions.subtract (b.exchange.unbindAll s.uid).2 } := by
  unfold isolate
  dsimp only
  split <;> rfl

theorem closeSession_stats {uid : SessionUid} {s : Session} (present : b.session? uid = some s)
    (live : s.closed = false) :
    (b.closeSession uid true).1.stats = { b.stats with
      subscriptions := b.stats.subscriptions.subtract (b.exchange.unbindAll s.uid).2
      inflights := b.stats.inflights.subtract s.inflight.entries.length } := by
  simp only [closeSession, present, live, Bool.false_eq_true, if_false, retire, if_true]
  split
  · simp only [putSession, closeQueues_stats, isolate_stats]
    rfl
  · simp only [putSession, closeQueues_stats, isolate_stats]
    rfl

theorem persist_error {uid : SessionUid} {e : StorageError} (failed : b.persist uid = .error e) :
    e = .closed ∧ b.storage.closed = true := by
  cases closed : b.storage.closed with
  | false =>
      obtain ⟨b', stored⟩ := persist_succeeds closed uid
      rw [failed] at stored
      cases stored
  | true =>
      unfold persist at failed
      split at failed
      · cases failed
      · simp only [Storage.Memory.deleteEntry, Storage.Memory.setEntry, Storage.Memory.checkOpen,
          closed, if_true, Bind.bind, Except.bind, ite_self] at failed
        cases failed
        exact ⟨rfl, rfl⟩

theorem closeSession_beside (b : Broker) (uid : SessionUid) (cleanup : Bool) :
    ∃ sessions exchange storage events reported connections stats,
      (b.closeSession uid cleanup).1 =
        { b with sessions, exchange, storage, events, reported, connections, stats } := by
  rcases b.closeSession_cases uid cleanup with ⟨_, same⟩ | ⟨s, present, live⟩
  · exact ⟨_, _, _, _, _, _, _, congrArg Prod.fst same⟩
  · obtain ⟨entries, events, reported, connections, stats, inflight, _, _, after⟩ :=
      closeSession_changes present live cleanup
    exact ⟨_, _, _, _, _, _, _, after⟩

theorem closeSession_entries {uid : SessionUid} {s : Session} (present : b.session? uid = some s)
    (live : s.closed = false) :
    (b.closeSession uid true).2 = .ok () ∧ (b.closeSession uid true).1.storage.entries =
        b.storage.entries.erase (Session.key s.info.id) ∨
      (b.closeSession uid true).2 = .error .closed ∧ b.storage.closed = true ∧
        (b.closeSession uid true).1.storage.entries = b.storage.entries := by
  cases closed : b.storage.closed with
  | false =>
      exact Or.inl ⟨closeSession_succeeds closed uid true, closeSession_erases closed present live⟩
  | true =>
      obtain ⟨connections, stats, isolated⟩ := b.isolate_changes s
      have still : (b.isolate s).storage = b.storage := by rw [isolated]
      have failing : ((b.isolate s).storageWithout
          { s with closed := true, client := none, inflight := s.inflight.close } true).closed = true := by
        rw [storageWithout_opened, still, closed]
      refine Or.inr ?_
      simp only [closeSession, present, live, Bool.false_eq_true, if_false, retire, if_true,
        putSession, closeQueues_storage, Storage.Memory.deleteEntry, Storage.Memory.checkOpen,
        failing, Bind.bind, Except.bind]
      refine ⟨trivial, trivial, ?_⟩
      rw [storageWithout_entries, still]

/-! Destroying -/

/-- The live session has been destroyed: it is closed as `s'` and out of the registry, its bindings
are gone, its connection has been told to end, and the gauges show it no longer. -/
structure Destroys (b : Broker) (s s' : Session) (b' : Broker) : Prop where
  closed : s'.closed = true
  client : s'.client = none
  queues : s'.queues = none
  info : s'.info = s.info
  window : s'.inflight.entries = []
  found : ∀ w, b'.session? w = if w = s.uid then some s' else b.session? w
  registry : b'.registry = b.registry.erase s.info.id
  exchange : b'.exchange = (b.exchange.unbindAll s.uid).1
  stats : b'.stats = { b.stats with
    sessions := b.stats.sessions.decrement
    subscriptions := b.stats.subscriptions.subtract (b.exchange.unbindAll s.uid).2
    inflights := b.stats.inflights.subtract s.inflight.entries.length }
  told : ∀ conn, b'.told conn =
    if s.client = some conn then (b.told conn).map fun _ => true else b.told conn
  beside : ∃ sessions registry exchange storage events reported connections stats,
    b' = { b with sessions, registry, exchange, storage, events, reported, connections, stats }
  storage : ∃ entries, b'.storage = { b.storageWithout s true with entries }

theorem Orderly.destroys (orderly : b.Orderly) {id : String} {s : Session}
    (live : b.find? id = some s) :
    ∃ s', Destroys b s s' (b.destroy s.uid).1 ∧
      ((b.destroy s.uid).2 = .ok () ∧ (b.destroy s.uid).1.storage.entries =
          b.storage.entries.erase (Session.key id) ∨
        (b.destroy s.uid).2 = .error .closed ∧ b.storage.closed = true ∧
          (b.destroy s.uid).1.storage.entries = b.storage.entries) := by
  obtain ⟨present, rfl, unclosed, entry⟩ := orderly.find?_some live
  let unlisted : Broker := { b with
    registry := b.registry.erase s.info.id
    stats := { b.stats with sessions := b.stats.sessions.decrement } }
  have here : unlisted.session? s.uid = some s := present
  have loose : unlisted.Orderly [s.uid] :=
    orderly.unregistered entry ⟨rfl, rfl, rfl, rfl, rfl, rfl⟩ rfl
  have same : b.destroy s.uid = unlisted.closeSession s.uid true := by
    simp only [Broker.destroy, present, entry, if_true]
    rfl
  rw [same]
  obtain ⟨s', entries, closed, client, queues, info, window, storage, registry, reforms⟩ :=
    loose.reforms_closeSession here unclosed true
  have stored := closeSession_entries here unclosed
  obtain ⟨sessions, exchange, _, events, reported, connections, stats, after⟩ :=
    unlisted.closeSession_beside s.uid true
  refine ⟨s', ?_, stored⟩
  constructor
  case closed => exact closed
  case client => exact client
  case queues => exact queues
  case info => exact info
  case window => exact window rfl
  case found => exact reforms.found
  case registry => exact registry
  case exchange =>
    obtain ⟨_, _, _, _, _, _, _, _, whole⟩ := closeSession_changes here unclosed true
    rw [whole]
    rfl
  case stats => exact closeSession_stats here unclosed
  case told => exact fun conn => closeSession_told here unclosed true conn
  case beside => exact ⟨_, _, _, _, _, _, _, _, after⟩
  case storage => exact ⟨entries, storage⟩

end MqttBroker.Broker
