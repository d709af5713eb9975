import MqttBroker.Broker.Calls
import MqttBroker.Proofs.Reopening

/-!
Persisted sessions. Whatever is asked of a broker for the sessions of its clients, and however often
it is shut down and started again: once it is done, storage holds the record of every session that is
not clean, as the session is then, and a bucket for every session that has subscriptions.
-/

namespace MqttBroker.Broker

inductive Operation
  | claim (c : Claim) (conn : Option ConnectionId) (unique : Bool)
  | subscribe (id : String) (grants : Grants) (requests : List (String × QoS))
  | unsubscribe (id : String) (filters : List String)
  | destroy (id : String)
  | release (id : String) (conn : ConnectionId)
  | disconnect (id : String) (peer : PeerId) (c : Served)
  | restart (settings : Settings)
  | advance (millis : Nat)

def forSession (b : Broker) (id : String) (act : Session → Broker × Except Failure Unit) :
    Broker × Except Failure Unit :=
  match b.find? id with
  | none => (b, .ok ())
  | some s => act s

def perform (b : Broker) : Operation → Broker × Except Failure Unit
  | .claim c conn unique =>
    let (b, result) := b.claim c conn unique
    (b, result.map fun _ => ())
  | .subscribe id grants requests => b.forSession id fun s =>
    let (b, result) := b.requestSubscriptions s.uid grants requests
    (b, result.map fun _ => ())
  | .unsubscribe id filters => b.forSession id fun s => b.requestUnsubscriptions s.uid filters
  | .destroy id => b.forSession id fun s =>
    let (b, result) := b.destroy s.uid
    (b, result.mapError .storage)
  | .release id conn => b.forSession id fun s => (b.release s.uid conn, .ok ())
  | .disconnect id peer c => b.forSession id fun s =>
    (b.leave peer { c with uid := s.uid } (.ok ()) true, .ok ())
  | .restart settings => b.restart settings
  | .advance millis => (b.advance millis, .ok ())

def performAll (b : Broker) (operations : List Operation) : Broker :=
  operations.foldl (fun b operation => (b.perform operation).1) b

structure Persisted (b : Broker) : Prop where
  recorded : ∀ id, (∃ data, b.storage.getEntry (Session.key id) = .ok (some data)) ↔
    ∃ s, b.find? id = some s ∧ s.info.cleanSession = false
  decoded : ∀ id s data, b.find? id = some s →
    b.storage.getEntry (Session.key id) = .ok (some data) →
      Codec.Json.load? Codec.Json.toSession? data = some s.info
  bucketed : ∀ id, b.storage.bucketExists (Session.bucketName id) = true ↔
    ∃ s, b.find? id = some s ∧ s.info.subscriptions ≠ []

variable {b : Broker}

namespace Upright

theorem getEntry (upright : b.Upright) (id : String) :
    b.storage.getEntry (Session.key id) = .ok ((b.info? id).bind SessionInfo.record?) := by
  rw [← (upright.mirrored id).recorded, Storage.Memory.getEntry_succeeds upright.ready.opened]
  rfl

theorem bucketExists_iff (upright : b.Upright) (id : String) :
    b.storage.bucketExists (Session.bucketName id) = true ↔
      ∃ s, b.find? id = some s ∧ s.info.subscriptions ≠ [] := by
  have subscribed : ∀ {uid s}, b.session? uid = some s → s.closed = false →
      (s.queues.isSome = true ↔ s.info.subscriptions ≠ []) := by
    intro uid s present live
    rw [upright.orderly.supplied uid s present live, Session.isSubscribed]
    simp
  unfold Storage.Memory.bucketExists Table.contains
  constructor
  · intro bucket
    obtain ⟨uid, s, present, live, rfl, queued⟩ := upright.tenanted id upright.ready.running
      (Option.isSome_iff_ne_none.mp bucket)
    exact ⟨s, upright.orderly.find?_of_live present live, (subscribed present live).mp queued⟩
  · rintro ⟨s, found, some⟩
    obtain ⟨present, rfl, live, _⟩ := upright.orderly.find?_some found
    obtain ⟨q, queued⟩ := Option.isSome_iff_exists.mp ((subscribed present live).mpr some)
    rw [((upright.orderly.owned s.uid s q present queued).2).2]
    rfl

theorem persisted (upright : b.Upright) : b.Persisted := by
  constructor
  · intro id
    rw [upright.getEntry, info?]
    cases found : b.find? id with
    | none => simp
    | some s => simp [SessionInfo.record?_eq_some]
  · intro id s data found entry
    rw [upright.getEntry, (upright.info found).1, Option.bind_some] at entry
    obtain ⟨_, rfl⟩ := SessionInfo.record?_eq_some.mp (Except.ok.inj entry)
    exact (upright.info found).2.load?
  · exact upright.bucketExists_iff

theorem forSession (upright : b.Upright) {id : String}
    {act : Session → Broker × Except Failure Unit}
    (acts : ∀ s, b.find? id = some s → (act s).1.Upright ∧ (act s).2 = .ok ()) :
    (b.forSession id act).1.Upright ∧ (b.forSession id act).2 = .ok () := by
  unfold Broker.forSession
  cases found : b.find? id with
  | none => exact ⟨upright, rfl⟩
  | some s => exact acts s found

theorem perform (upright : b.Upright) (operation : Operation) :
    (b.perform operation).1.Upright ∧ (b.perform operation).2 = .ok () := by
  cases operation with
  | claim c conn unique =>
      obtain ⟨b', claimed, done, after⟩ := upright.claim c conn unique
      simp only [Broker.perform, done]
      exact ⟨after, rfl⟩
  | subscribe id grants requests =>
      refine upright.forSession fun s live => ?_
      obtain ⟨b', answer, done, after⟩ := upright.requestSubscriptions live grants requests
      simp only [done]
      exact ⟨after, rfl⟩
  | unsubscribe id filters =>
      refine upright.forSession fun s live => ?_
      obtain ⟨b', done, after⟩ := upright.requestUnsubscriptions live filters
      rw [done]
      exact ⟨after, rfl⟩
  | destroy id =>
      refine upright.forSession fun s live => ⟨upright.destroy live, ?_⟩
      change Except.mapError Failure.storage (b.destroy s.uid).2 = .ok ()
      rw [destroy_succeeds upright.ready.opened]
      rfl
  | release id conn =>
      exact upright.forSession fun s _ => ⟨upright.release s.uid conn, rfl⟩
  | disconnect id peer c =>
      exact upright.forSession fun s _ => ⟨upright.leave peer { c with uid := s.uid } _, rfl⟩
  | restart settings =>
      obtain ⟨b', done, after⟩ := upright.restart settings
      rw [Broker.perform, done]
      exact ⟨after, rfl⟩
  | advance millis => exact ⟨upright.advance millis, rfl⟩

theorem performAll (upright : b.Upright) (operations : List Operation) :
    (b.performAll operations).Upright := by
  unfold Broker.performAll
  induction operations generalizing b with
  | nil => exact upright
  | cons operation rest ih => exact ih (upright.perform operation).1

end Upright

/-- A broker is started over an empty storage. Whatever is asked of it, it does, and whenever it is
done storage agrees with the live sessions. -/
theorem performAll_persisted (settings : Settings) (now : Nat) (clock : Int64) :
    ∃ fresh, start settings {} now clock = .ok fresh ∧ ∀ operations,
      (fresh.performAll operations).Persisted ∧
      (fresh.performAll operations).shuttingDown = false ∧
      ∀ next, ((fresh.performAll operations).perform next).2 = .ok () := by
  obtain ⟨fresh, begun, upright⟩ :=
    start_upright Storage.Memory.canonical_empty settings now clock
  refine ⟨fresh, begun, fun operations => ?_⟩
  have reached := upright.performAll operations
  exact ⟨reached.persisted, reached.ready.running, fun next => (reached.perform next).2⟩

example :
    let b := (History.freshOver {}).performAll [.claim { id := "c", clean := false } none true,
      .subscribe "c" .everything [("a", .atLeastOnce)]]
    let restarted := (b.perform (.restart {})).1
    b.storage.bucketExists "queue/c" = true ∧ restarted.storage.bucketExists "queue/c" = false ∧
      b.storage.entries.keys = ["session/c"] ∧ restarted.storage.entries.keys = ["session/c"] := by
  decide +kernel

end MqttBroker.Broker
