import MqttBroker.Proofs.Life
import MqttBroker.Proofs.Matching

/-!
What is done to sessions leaves the storage as open as it was. Over an open storage nothing that is
asked for a live session fails.
-/

namespace MqttBroker

namespace Storage.Memory

variable {m m' : Memory}

theorem bucket_opened {name : String} {h : Handle} (done : m.bucket name = .ok (m', h)) :
    m'.closed = m.closed := by
  rcases bucket_ok done with ⟨_, rfl⟩ | ⟨_, _, rfl⟩ <;> rfl

theorem closeBucket_opened (m : Memory) (h : Handle) (clean : Bool) :
    (m.closeBucket h clean).closed = m.closed := by
  unfold closeBucket
  split <;> rfl

end Storage.Memory

theorem StoredQueue.close_opened {τ : Type} (s : StoredQueue τ) (m : Storage.Memory) (time : Int64)
    (clean : Bool) : (s.close m time clean).memory.closed = m.closed := by
  unfold close
  split
  · rfl
  · simp only [Storage.Memory.closeBucket_opened]
    unfold stop
    split <;> rfl

def Session.takenBy (s : Session) (c : Broker.Claim) : Session :=
  { s with info := { s.info with
      cleanSession := c.clean, will := c.will, principal := c.principal } }

namespace Broker

variable {b b' : Broker}

theorem storageWithout_opened (b : Broker) (s : Session) (cleanup : Bool) :
    (b.storageWithout s cleanup).closed = b.storage.closed := by
  unfold storageWithout
  split
  · rfl
  · exact StoredQueue.close_opened ..

/-! Records -/

theorem persist_opened {uid : SessionUid} (done : b.persist uid = .ok b') :
    b'.storage.closed = b.storage.closed := by
  rcases persist_changes done with rfl | ⟨_, _, _, _, rfl⟩ <;> rfl

theorem persist_succeeds (opened : b.storage.closed = false) (uid : SessionUid) :
    ∃ b', b.persist uid = .ok b' := by
  unfold persist
  split
  · exact ⟨b, rfl⟩
  · dsimp only
    split
    · rw [Storage.Memory.deleteEntry_succeeds opened]
      exact ⟨_, rfl⟩
    · rw [Storage.Memory.setEntry_succeeds opened]
      exact ⟨_, rfl⟩

/-! Subscriptions -/

theorem subscribe_opened {uid : SessionUid} {filter : String} {qos : QoS} {added : Bool}
    (done : b.subscribe uid filter qos = .ok (b', added)) :
    b'.storage.closed = b.storage.closed := by
  obtain ⟨_, _, _, _, _, _, _, _, _, _, provided, _, rfl⟩ := subscribe_changes done
  cases provided with
  | before _ => rfl
  | now _ bucket => exact Storage.Memory.bucket_opened bucket

theorem subscribe_succeeds (opened : b.storage.closed = false) {uid : SessionUid} {s : Session}
    (present : b.session? uid = some s) (live : s.closed = false) {filter : String}
    {pattern : Topic} (parsed : Topic.parse filter = .ok pattern) (qos : QoS) :
    ∃ b' added, b.subscribe uid filter qos = .ok (b', added) := by
  have provided : ∃ start, b.provide s = .ok start := by
    unfold provide
    split
    · exact ⟨_, rfl⟩
    · obtain ⟨m, h, bucket⟩ := Storage.Memory.bucket_succeeds opened (Session.bucketName s.info.id)
      simp [openQueues, StoredQueue.openOver, bucket, Bind.bind, Except.bind, Except.mapError, pure,
        Except.pure]
  obtain ⟨start, provided⟩ := provided
  obtain ⟨x, bound, binding⟩ := Exchange.bind_succeeds parsed start.1.exchange start.2.uid
  simp only [subscribe, parsed, present, live, Bool.false_eq_true, if_false, provided,
    enterSubscription, binding]
  split
  · exact ⟨_, _, rfl⟩
  · exact ⟨_, _, rfl⟩

theorem checkFilter_parsed {grants : Option Grants} {filter : String}
    (checked : b.checkFilter grants filter = .ok ()) :
    ∃ pattern, Topic.parse filter = .ok pattern := by
  simp only [checkFilter, bind_eq_ok, mapError_eq_ok] at checked
  obtain ⟨pattern, valid, _⟩ := checked
  exact ⟨pattern, (Topic.validate_ok valid).1⟩

theorem allows_parsed {uid : SessionUid} {grants : Grants} {filter : String}
    (allowed : b.allows uid grants filter = true) :
    ∃ pattern, Topic.parse filter = .ok pattern := by
  simp only [allows, Bool.and_eq_true] at allowed
  cases checked : b.checkFilter (some grants) filter with
  | error e =>
      rw [checked] at allowed
      cases allowed.1
  | ok _ => exact checkFilter_parsed checked

theorem unsubscribe_opened {uid : SessionUid} {filter : String} {removed : Bool}
    (done : b.unsubscribe uid filter = .ok (b', removed)) :
    b'.storage.closed = b.storage.closed := by
  obtain ⟨rfl, _⟩ | ⟨s, _, _, _, storage, _, _, _, _, _, _, _, _, _, _, _, _, emptied, _, _, rfl⟩ :=
    unsubscribe_changes done
  · rfl
  · rcases emptied with ⟨_, rfl, _⟩ | ⟨_, rfl, _⟩
    · rfl
    · exact b.storageWithout_opened s true

theorem Orderly.unsubscribe_succeeds {loose : List SessionUid} (orderly : b.Orderly loose)
    {uid : SessionUid} {s : Session} (present : b.session? uid = some s) (live : s.closed = false)
    (filter : String) : ∃ b' removed, b.unsubscribe uid filter = .ok (b', removed) := by
  simp only [Broker.unsubscribe, present]
  split
  · rename_i held
    obtain ⟨dropped, routed⟩ := orderly.routed
    obtain ⟨pattern, parsed⟩ := routed.parsed uid filter ⟨s, present, live, held⟩
    obtain ⟨x, found, unbound⟩ := Exchange.unbind_succeeds parsed b.exchange s.uid
    obtain ⟨_, _, _, done⟩ := dropSubscription_ok unbound
    rw [done]
    exact ⟨_, _, rfl⟩
  · exact ⟨_, _, rfl⟩

/-! Closing -/

theorem closeQueues_storage (b : Broker) (s : Session) (cleanup : Bool) :
    (b.closeQueues s cleanup).1.storage = b.storageWithout s cleanup := by
  obtain ⟨_, _, _, _, _, _, closed⟩ := b.closeQueues_changes s cleanup
  rw [closed]

theorem closeSession_opened (b : Broker) (uid : SessionUid) (cleanup : Bool) :
    (b.closeSession uid cleanup).1.storage.closed = b.storage.closed := by
  rcases b.closeSession_cases uid cleanup with ⟨_, same⟩ | ⟨s, present, live⟩
  · rw [same]
  · obtain ⟨_, _, _, _, _, _, _, _, after⟩ := closeSession_changes present live cleanup
    rw [after]
    exact b.storageWithout_opened s cleanup

theorem closeSession_succeeds (opened : b.storage.closed = false) (uid : SessionUid)
    (cleanup : Bool) : (b.closeSession uid cleanup).2 = .ok () := by
  unfold closeSession
  split
  · rfl
  · rename_i s _
    split
    · rfl
    · unfold retire
      dsimp only
      split
      · have still : (((b.isolate s).closeQueues
            { s with closed := true, client := none, inflight := s.inflight.close }
            cleanup).1).storage.closed = false := by
          obtain ⟨connections, stats, isolated⟩ := b.isolate_changes s
          rw [closeQueues_storage, storageWithout_opened, isolated]
          exact opened
        simp only [putSession, Storage.Memory.deleteEntry_succeeds still]
      · rfl

theorem destroy_opened (b : Broker) (uid : SessionUid) :
    (b.destroy uid).1.storage.closed = b.storage.closed := by
  unfold destroy
  split
  · rfl
  · dsimp only
    rw [closeSession_opened]
    split <;> rfl

theorem destroy_succeeds (opened : b.storage.closed = false) (uid : SessionUid) :
    (b.destroy uid).2 = .ok () := by
  unfold destroy
  split
  · rfl
  · apply closeSession_succeeds
    split <;> exact opened

/-! Claims -/

def newSession (b : Broker) (c : Claim) : Session :=
  .new b.nextUid { id := c.id, cleanSession := c.clean } b.settings.mqtt

inductive Settled (b : Broker) (c : Claim) : Broker → Session → Bool → Prop
  | resumed {s} : b.find? c.id = some s → s.info.cleanSession = false → c.clean = false →
      Settled b c b s true
  | created : b.find? c.id = none → Settled b c (b.create c.id c.clean).1 (b.newSession c) false
  | replaced {s} : b.find? c.id = some s → (s.info.cleanSession || c.clean) = true →
      Settled b c ((b.destroy s.uid).1.create c.id c.clean).1 ((b.destroy s.uid).1.newSession c)
        false

theorem settleClaim_succeeds (opened : b.storage.closed = false) (c : Claim) :
    ∃ start s present, Settled b c start s present ∧
      b.settleClaim c = (start, .ok (s.uid, present)) := by
  unfold settleClaim
  split
  · rename_i absent
    exact ⟨_, _, _, .created absent, rfl⟩
  · rename_i s found
    split
    · rename_i durable
      simp only [Bool.and_eq_true, Bool.not_eq_true'] at durable
      exact ⟨_, _, _, .resumed found durable.2 durable.1, rfl⟩
    · rename_i clean
      have replaced : (s.info.cleanSession || c.clean) = true := by
        cases stays : s.info.cleanSession <;> cases wanted : c.clean <;> simp_all
      have gone := destroy_succeeds opened s.uid
      refine ⟨_, _, _, .replaced found replaced, ?_⟩
      generalize b.destroy s.uid = after at gone ⊢
      obtain ⟨next, result⟩ := after
      subst gone
      rfl

theorem Orderly.find?_some (orderly : b.Orderly) {id : String} {s : Session}
    (found : b.find? id = some s) :
    b.session? s.uid = some s ∧ s.info.id = id ∧ s.closed = false ∧
      b.registry.get? id = some s.uid := by
  obtain ⟨uid, entry, present⟩ := Option.bind_eq_some_iff.mp found
  obtain ⟨x, here, own, live⟩ := orderly.live id uid entry
  rw [present] at here
  cases here
  obtain ⟨rfl, _⟩ := orderly.own present
  exact ⟨present, own, live, entry⟩

theorem Orderly.find?_of_live (orderly : b.Orderly) {uid : SessionUid} {s : Session}
    (present : b.session? uid = some s) (live : s.closed = false) :
    b.find? s.info.id = some s := by
  rw [find?, orderly.listed uid s present live List.not_mem_nil]
  exact present

theorem create_newSession (b : Broker) (c : Claim) :
    (b.create c.id c.clean).1.session? (b.newSession c).uid = some (b.newSession c) := by
  rw [create_session?]
  exact if_pos rfl

theorem Settled.present (orderly : b.Orderly) {c : Claim} {start : Broker} {s : Session}
    {present : Bool} (settled : Settled b c start s present) :
    start.session? s.uid = some s ∧ s.info.id = c.id ∧ s.closed = false := by
  cases settled with
  | resumed found _ _ =>
      obtain ⟨here, own, live, _⟩ := orderly.find?_some found
      exact ⟨here, own, live⟩
  | created _ => exact ⟨b.create_newSession c, rfl, rfl⟩
  | replaced _ _ => exact ⟨create_newSession .., rfl, rfl⟩

theorem Settled.opened {c : Claim} {start : Broker} {s : Session} {present : Bool}
    (settled : Settled b c start s present) : start.storage.closed = b.storage.closed := by
  cases settled with
  | resumed _ _ _ => rfl
  | created _ => rfl
  | replaced _ _ => exact destroy_opened ..

theorem bind_storage (b : Broker) (s : Session) (conn : Option ConnectionId) (unique : Bool) :
    (b.bind s conn unique).1.storage = b.storage := by
  unfold Broker.bind
  split
  · rfl
  · dsimp only
    split
    · rfl
    · split <;> rfl

/-- A broker that is running settles the claim, hands the session what is claimed, binds it, and
records it. -/
theorem claim_succeeds (orderly : b.Orderly) (running : b.shuttingDown = false)
    (opened : b.storage.closed = false) (c : Claim) (conn : Option ConnectionId) (unique : Bool) :
    ∃ start s present after, Settled b c start s present ∧
      ((start.putSession (s.takenBy c)).bind (s.takenBy c) conn unique).1.persist s.uid =
        .ok after ∧
      b.claim c conn unique = (after, .ok { uid := s.uid, present, replaced :=
        ((start.putSession (s.takenBy c)).bind (s.takenBy c) conn unique).2 }) := by
  obtain ⟨start, s, present, settled, same⟩ := settleClaim_succeeds opened c
  have here := (settled.present orderly).1
  have opened : ((start.putSession (s.takenBy c)).bind (s.takenBy c) conn unique).1.storage.closed
      = false := by
    rw [bind_storage]
    exact settled.opened.trans opened
  obtain ⟨after, stored⟩ := persist_succeeds opened s.uid
  refine ⟨start, s, present, after, settled, stored, ?_⟩
  rw [claim_takeUp, running, same]
  simp only [Bool.false_eq_true, if_false, takeUp, here]
  unfold Session.takenBy at stored ⊢
  simp only [stored]

end Broker

end MqttBroker
