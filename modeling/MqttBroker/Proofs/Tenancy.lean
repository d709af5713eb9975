import MqttBroker.Proofs.Histories
import MqttBroker.Proofs.Provenance

/-!
Whose messages are in the bucket of a client's id. A session that is new under its id starts with
no bucket, unless one was left in storage that no session was restored for.
-/

namespace MqttBroker

namespace Broker

variable {clients : List Client} {handed : List (SessionUid × Publish)} {b b' : Broker}

/-! A session whose durable queue holds nothing but messages that were handed to it -/

/-- All in the durable queue of the session and in its bucket are these messages. Without queues
there is no bucket of its name. -/
structure Tenant (b : Broker) (uid : SessionUid) (P : Publish → Prop) : Prop where
  known : uid < b.nextUid
  within : ∀ s q bucket, b.session? uid = some s → s.queues = some q →
    b.storage.find? q.durable.handle = some bucket → q.durable.queue.Within P bucket
  vacant : ∀ s, b.session? uid = some s → s.closed = false → s.queues = none →
    b.storage.names.get? (Session.bucketName s.info.id) = none

theorem Tenant.elsewhere {uid : SessionUid} {P : Publish → Prop} (tenant : b.Tenant uid P)
    {loose : List SessionUid} (orderly : b.Orderly loose) {s s' : Session}
    (reforms : Reforms b b' s s') (other : uid ≠ s.uid) : b'.Tenant uid P where
  known := reforms.nextUid ▸ tenant.known
  within x q bucket present queued found := by
    rw [reforms.found, if_neg other] at present
    obtain ⟨live, owns⟩ := orderly.owned uid x q present queued
    obtain ⟨before, held, own⟩ := owns.bucket orderly.named
    have after := (reforms.elsewhere orderly other present live).2 _ before held own
    rw [found] at after
    cases after
    exact tenant.within x q bucket present queued held
  vacant x present live idle := by
    rw [reforms.found, if_neg other] at present
    rw [(reforms.elsewhere orderly other present live).1]
    exact tenant.vacant x present live idle

theorem Tenant.reformed {uid : SessionUid} {P : Publish → Prop} (tenant : b.Tenant uid P)
    {loose : List SessionUid} (orderly : b.Orderly loose) {s s' : Session}
    (reforms : Reforms b b' s s')
    (within : s.uid = uid → ∀ q bucket, s'.queues = some q →
      b'.storage.find? q.durable.handle = some bucket → q.durable.queue.Within P bucket)
    (vacant : s.uid = uid → s'.closed = false → s'.queues = none →
      b'.storage.names.get? (Session.bucketName s.info.id) = none) : b'.Tenant uid P := by
  by_cases same : uid = s.uid
  · refine ⟨reforms.nextUid ▸ tenant.known, fun x q bucket present queued found => ?_,
      fun x present live idle => ?_⟩ <;>
      rw [reforms.found, if_pos same] at present <;> cases present
    · exact within same.symm q bucket queued found
    · rw [reforms.id]
      exact vacant same.symm live idle
  · exact tenant.elsewhere orderly reforms same

theorem Tenant.unchanged {uid : SessionUid} {P : Publish → Prop} (tenant : b.Tenant uid P)
    (found : b'.session? uid = b.session? uid) (nextUid : b.nextUid ≤ b'.nextUid)
    (names : b'.storage.names = b.storage.names)
    (buckets : b'.storage.buckets = b.storage.buckets) : b'.Tenant uid P where
  known := Nat.lt_of_lt_of_le tenant.known nextUid
  within := by
    unfold Storage.Memory.find?
    rw [found, buckets]
    exact tenant.within
  vacant := by
    rw [found, names]
    exact tenant.vacant

theorem Tenant.turned {uid : SessionUid} {P : Publish → Prop} (tenant : b.Tenant uid P)
    (orderly : b.Orderly) {s : Session} (present : b.session? s.uid = some s) {q : SessionQueues}
    (queued : s.queues = some q) (own : s.uid = uid) (activities : List DurableQueue.Activity)
    {bucket : Bucket}
    (found : (q.durable.turns b.storage activities).memory.find? q.durable.handle = some bucket) :
    (q.durable.turns b.storage activities).queue.queue.Within P bucket := by
  obtain ⟨_, owns⟩ := orderly.owned s.uid s q present queued
  obtain ⟨before, held, _⟩ := owns.bucket orderly.named
  have within := tenant.within s q before (own ▸ present) queued held
  simp only [StoredQueue.turns, StoredQueue.work, held, Storage.Memory.find?_insert, if_true,
    Option.some_inj] at found ⊢
  exact found ▸ within.performAll activities

theorem Tenant.provided {uid : SessionUid} {P : Publish → Prop} (tenant : b.Tenant uid P)
    (orderly : b.Orderly) {s : Session} (present : b.session? s.uid = some s)
    (live : s.closed = false) (own : s.uid = uid) {storage : Storage.Memory}
    {queues : Option SessionQueues} (provided : b.Provided s storage queues) {q : SessionQueues}
    {bucket : Bucket} (queued : queues = some q)
    (found : storage.find? q.durable.handle = some bucket) : q.durable.queue.Within P bucket := by
  cases provided with
  | before _ => exact tenant.within s q bucket (own ▸ present) queued found
  | now unsubscribed opened =>
      cases queued
      have idle : s.queues = none := by
        simpa [unsubscribed] using orderly.supplied s.uid s present live
      have free := tenant.vacant s (own ▸ present) live idle
      rcases Storage.Memory.bucket_ok opened with ⟨held, _⟩ | ⟨_, rfl, rfl⟩
      · rw [free] at held
        cases held
      · have new : bucket = { name := Session.bucketName s.info.id } := by
          have here : (b.storage.replace b.storage.opened
              { name := Session.bucketName s.info.id }).find? b.storage.opened = some bucket :=
            found
          rw [Storage.Memory.find?_insert, if_pos rfl] at here
          exact (Option.some_inj.mp here).symm
        exact DurableQueue.new_within _ _ _ (by rw [new])

theorem Tenant.used {uid : SessionUid} {P : Publish → Prop} (tenant : b.Tenant uid P)
    (orderly : b.Orderly) {s s' : Session} (reforms : Reforms b b' s s') (used : s.Used s')
    (storage : b'.storage = b.storage) : b'.Tenant uid P := by
  apply tenant.reformed orderly reforms
  · intro own q' bucket queued' found
    obtain ⟨q, queued⟩ := Option.isSome_iff_exists.mp
      (used.queues.symm.trans (congrArg Option.isSome queued'))
    have drained := used.drained q q' queued queued'
    rw [storage, drained.handle] at found
    exact drained.within (tenant.within s q bucket (own ▸ reforms.present) queued found)
  · intro own live idle
    rw [storage]
    refine tenant.vacant s (own ▸ reforms.present) (used.closed.symm.trans live) ?_
    simpa [idle] using used.queues.symm

theorem Tenant.emptied {uid : SessionUid} {P : Publish → Prop} (tenant : b.Tenant uid P)
    (orderly : b.Orderly) {s s' : Session} (reforms : Reforms b b' s s')
    (queues : s'.queues = none)
    (vacant : s.uid = uid → s'.closed = false →
      b'.storage.names.get? (Session.bucketName s.info.id) = none) : b'.Tenant uid P := by
  apply tenant.reformed orderly reforms
  · intro _ q _ queued
    rw [queues] at queued
    cases queued
  · exact fun own live _ => vacant own live

theorem Tenant.unsubscribed {uid : SessionUid} {P : Publish → Prop} (tenant : b.Tenant uid P)
    (orderly : b.Orderly) {s s' : Session} (reforms : Reforms b b' s s')
    (closed : s'.closed = s.closed)
    (lost : s'.queues = s.queues ∧ b'.storage = b.storage ∨
      s'.queues = none ∧ b'.storage = b.storageWithout s true) : b'.Tenant uid P := by
  have vacant : s.uid = uid → s'.closed = false → s.queues = none →
      b.storage.names.get? (Session.bucketName s.info.id) = none :=
    fun own live idle => tenant.vacant s (own ▸ reforms.present) (closed ▸ live) idle
  rcases lost with ⟨queues, storage⟩ | ⟨queues, storage⟩
  · apply tenant.reformed orderly reforms
    · intro own q bucket queued found
      rw [storage] at found
      exact tenant.within s q bucket (own ▸ reforms.present) (queues ▸ queued) found
    · intro own live idle
      rw [storage]
      exact vacant own live (queues ▸ idle)
  · refine tenant.emptied orderly reforms queues fun own live => ?_
    rw [storage]
    rcases (orderly.storageWithout reforms.present true).2 with ⟨same, idle⟩ | ⟨_, _, _, free⟩
    · rw [same]
      exact vacant own live idle
    · exact free rfl

theorem Tenant.effect {uid : SessionUid} {P : Publish → Prop} (tenant : b.Tenant uid P)
    (orderly : b.Orderly) (logged : ∀ p, (uid, p) ∈ handed → P p)
    (effect : Effect clients handed b b') : b'.Tenant uid P := by
  cases effect with
  | still still =>
      exact tenant.unchanged (congrFun still.session? uid) (Nat.le_of_eq still.nextUid.symm)
        still.names still.buckets
  | created id clean none _ =>
      refine tenant.unchanged ?_ (Nat.le_succ _) rfl rfl
      rw [create_session?, if_neg (Nat.ne_of_lt tenant.known)]
  | stopped down =>
      have closed := orderly.closeSessions.2.1
      refine ⟨?_, fun s q bucket present queued _ => ?_, fun s present live _ => ?_⟩
      · exact b.closeSessions_frame.2.1.symm ▸ tenant.known
      · have live := (orderly.closeSessions.1.owned uid s q present queued).1
        rw [closed uid s present] at live
        cases live
      · rw [closed uid s present] at live
        cases live
  | reformed reforms reformed =>
      rename_i s s'
      have present := reforms.present
      cases reformed with
      | used used storage => exact tenant.used orderly reforms used storage
      | queued queued pushed member same storage =>
          subst same
          refine tenant.reformed orderly reforms ?_ (fun _ _ idle => nomatch idle)
          intro own q' bucket queued' found
          cases queued'
          obtain ⟨queue, accepted, rfl⟩ := Option.map_eq_some_iff.mp pushed
          rw [storage] at found
          exact (tenant.within s _ bucket (own ▸ present) queued found).push
            (logged _ (own ▸ member)) accepted
      | turned activities queued same storage =>
          subst same
          refine tenant.reformed orderly reforms ?_ (fun _ _ idle => nomatch idle)
          intro own q' bucket queued' found
          cases queued'
          rw [storage, StoredQueue.turns_handle] at found
          exact tenant.turned orderly present queued own activities found
      | subscribed _ _ _ live provided closed info =>
          refine tenant.reformed orderly reforms ?_ ?_
          · intro own q' bucket queued' found
            exact tenant.provided orderly present live own provided queued' found
          · intro _ _ idle
            have filled := orderly.provided_isSome present live provided
            rw [idle] at filled
            cases filled
      | unsubscribed closed info lost _ => exact tenant.unsubscribed orderly reforms closed lost
      | closed live closed idle info storage =>
          refine tenant.emptied orderly reforms idle fun _ live' => ?_
          rw [closed] at live'
          cases live'

theorem Changes.tenant {uid : SessionUid} {P : Publish → Prop}
    (changes : Changes clients handed b b') (orderly : b.Orderly) (tenant : b.Tenant uid P)
    (logged : ∀ p, (uid, p) ∈ handed → P p) : b'.Tenant uid P :=
  (changes.preserve (P := fun b => b.Tenant uid P)
    (fun orderly tenant change => tenant.effect orderly logged (change.effect orderly))
    orderly tenant).2

/-! Client ids whose bucket belongs to a session -/

/-- While the broker is not shutting down, a bucket of the client id belongs to an open session. -/
def Tenanted (b : Broker) (id : String) : Prop :=
  b.shuttingDown = false → b.storage.names.get? (Session.bucketName id) ≠ none →
    ∃ uid s, b.session? uid = some s ∧ s.closed = false ∧ s.info.id = id ∧
      s.queues.isSome = true

theorem Tenanted.reformed {id : String} (tenanted : b.Tenanted id) {s s' : Session}
    (reforms : Reforms b b' s s')
    (own : b'.storage.names.get? (Session.bucketName s.info.id) = none ∨
      s'.closed = false ∧ s'.queues.isSome = true ∨
      b'.storage.names = b.storage.names ∧
        (s.closed = false → s.queues.isSome = true →
          s'.closed = false ∧ s'.queues.isSome = true)) :
    b'.Tenanted id := by
  intro running bucket
  have running : b.shuttingDown = false := reforms.shuttingDown ▸ running
  have elsewhere : ∀ w x, b.session? w = some x → x.closed = false → x.info.id = id →
      x.queues.isSome = true → w ≠ s.uid →
      ∃ uid s, b'.session? uid = some s ∧ s.closed = false ∧ s.info.id = id ∧
        s.queues.isSome = true := by
    intro w x present live same filled other
    exact ⟨w, x, by rw [reforms.found, if_neg other]; exact present, live, same, filled⟩
  have here : s'.closed = false → s'.queues.isSome = true → s.info.id = id →
      ∃ uid s, b'.session? uid = some s ∧ s.closed = false ∧ s.info.id = id ∧
        s.queues.isSome = true := by
    intro live filled same
    exact ⟨s.uid, s', by rw [reforms.found, if_pos rfl], live, reforms.id.trans same, filled⟩
  by_cases same : s.info.id = id
  · rcases own with free | ⟨live, filled⟩ | ⟨names, kept⟩
    · exact absurd (same ▸ free) bucket
    · exact here live filled same
    · obtain ⟨w, x, present, live, id, filled⟩ := tenanted running (names ▸ bucket)
      by_cases mine : w = s.uid
      · rw [mine, reforms.present] at present
        cases present
        exact here (kept live filled).1 (kept live filled).2 same
      · exact elsewhere w x present live id filled mine
  · have names := reforms.names_elsewhere same
    obtain ⟨w, x, present, live, id, filled⟩ := tenanted running (names ▸ bucket)
    refine elsewhere w x present live id filled ?_
    rintro rfl
    rw [reforms.present] at present
    cases present
    exact same id

theorem Tenanted.effect {id : String} (tenanted : b.Tenanted id) (orderly : b.Orderly)
    (effect : Effect clients handed b b') : b'.Tenanted id := by
  cases effect with
  | still still =>
      intro running bucket
      have running : b.shuttingDown = false := by
        cases down : b.shuttingDown with
        | false => rfl
        | true =>
            rw [still.down down] at running
            cases running
      rw [still.session?]
      exact tenanted running (still.names ▸ bucket)
  | created other clean none _ =>
      intro running bucket
      obtain ⟨w, x, present, rest⟩ := tenanted running bucket
      refine ⟨w, x, ?_, rest⟩
      rw [create_session?, if_neg (Nat.ne_of_lt (orderly.own present).2)]
      exact present
  | stopped down =>
      intro running
      rw [b.closeSessions_frame.2.2, down] at running
      cases running
  | reformed reforms reformed =>
      rename_i s s'
      have emptied : ∀ entries, b'.storage = { b.storageWithout s true with entries } →
          b'.storage.names.get? (Session.bucketName s.info.id) = none ∨
            b'.storage.names = b.storage.names ∧ s.queues = none := by
        intro entries storage
        rw [storage]
        rcases (orderly.storageWithout reforms.present true).2 with
          ⟨same, idle⟩ | ⟨_, _, _, free⟩
        · exact Or.inr ⟨by rw [same], idle⟩
        · exact Or.inl (free rfl)
      apply tenanted.reformed reforms
      cases reformed with
      | used used storage =>
          exact Or.inr (Or.inr ⟨by rw [storage], fun live filled =>
            ⟨used.closed.trans live, used.queues.trans filled⟩⟩)
      | queued queued pushed member same storage =>
          subst same
          have live := (orderly.owned s.uid s _ reforms.present queued).1
          exact Or.inr (Or.inl ⟨live, rfl⟩)
      | turned activities queued same storage =>
          subst same
          have live := (orderly.owned s.uid s _ reforms.present queued).1
          exact Or.inr (Or.inl ⟨live, rfl⟩)
      | subscribed _ _ _ live provided closed info =>
          exact Or.inr (Or.inl ⟨closed.trans live,
            orderly.provided_isSome reforms.present live provided⟩)
      | unsubscribed closed info lost _ =>
          rcases lost with ⟨queues, storage⟩ | ⟨queues, storage⟩
          · exact Or.inr (Or.inr ⟨by rw [storage], fun live filled =>
              ⟨closed.trans live, queues ▸ filled⟩⟩)
          · rcases emptied _ storage with free | ⟨names, idle⟩
            · exact Or.inl free
            · exact Or.inr (Or.inr ⟨names, fun _ filled => by simp [idle] at filled⟩)
      | closed live closed idle info storage =>
          rcases emptied _ storage with free | ⟨names, idle⟩
          · exact Or.inl free
          · exact Or.inr (Or.inr ⟨names, fun _ filled => by simp [idle] at filled⟩)

theorem Changes.tenanted {id : String} (changes : Changes clients handed b b')
    (orderly : b.Orderly) (tenanted : b.Tenanted id) : b'.Tenanted id :=
  (changes.preserve (P := fun b => b.Tenanted id)
    (fun orderly tenanted change => tenanted.effect orderly (change.effect orderly))
    orderly tenanted).2

theorem Resumed.tenanted {storage : Storage.Memory} (resumed : Resumed storage b) {id : String}
    (claimed : storage.names.get? (Session.bucketName id) = none ∨
      (b.find? id).isSome = true) : b.Tenanted id := by
  intro _ bucket
  cases found : b.find? id with
  | none =>
      rw [resumed.untouched id found] at bucket
      rcases claimed with free | present
      · exact absurd free bucket
      · simp [found] at present
  | some s =>
      obtain ⟨uid, entry, present⟩ := Option.bind_eq_some_iff.mp found
      obtain ⟨x, here, own, live⟩ := resumed.orderly.live id uid entry
      rw [present] at here
      cases here
      exact ⟨uid, s, present, live, own, (resumed.housed id s found).resolve_right bucket⟩

theorem Tenanted.created {id : String} (tenanted : b.Tenanted id) (orderly : b.Orderly)
    (absent : b.find? id = none) (running : b.shuttingDown = false) (clean : Bool)
    (P : Publish → Prop) : (b.create id clean).1.Tenant b.nextUid P where
  known := Nat.lt_succ_self _
  within s q bucket present queued := by
    rw [create_session?, if_pos rfl] at present
    cases present
    cases queued
  vacant s present _ _ := by
    rw [create_session?, if_pos rfl] at present
    cases present
    change b.storage.names.get? (Session.bucketName id) = none
    by_contra bucket
    obtain ⟨w, x, here, live, own, _⟩ := tenanted running bucket
    exact orderly.find?_none absent w x here live own

end Broker

namespace History

open Broker (start)

def outbox (h : History) (uid : SessionUid) : List StoredMessage :=
  (((h.broker.session? uid).bind Session.queues).map fun q => q.durable.queue.outbox).getD []

theorem mem_outbox {h : History} {uid : SessionUid} {m : StoredMessage} :
    m ∈ h.outbox uid ↔ ∃ s q, h.broker.session? uid = some s ∧ s.queues = some q ∧
      m ∈ q.durable.queue.outbox := by
  unfold outbox
  cases present : h.broker.session? uid with
  | none => simp
  | some s => cases queued : s.queues <;> simp [queued]

/-- What the durable queue of a session that is new under its id has to send was handed to that
session, whatever happened before and happens since, and whoever subscribes. It can be otherwise
only if the broker was started over a storage with a bucket of that name, and restored no session
with the id. -/
theorem sent_of_handed {settings : Settings} {storage : Storage.Memory} {now : Nat} {clock : Int64}
    {fresh b : Broker} (restorable : storage.Restorable)
    (begun : start settings storage now clock = .ok fresh) (before : List Act) {c : Broker.Claim}
    {conn : Option ConnectionId} {unique : Bool} {claimed : Broker.Claimed}
    (claim : ((started fresh).run before).broker.claim c conn unique = (b, .ok claimed))
    (new : claimed.present = false)
    (unspoiled : storage.names.get? (Session.bucketName c.id) = none ∨
      (fresh.find? c.id).isSome = true)
    (clients : List Client) (after : List Act) {h : History}
    (reached : h = run { broker := b, clients } after) :
    ∀ m ∈ h.outbox claimed.uid, m.From fun p => (claimed.uid, p) ∈ h.handed := by
  intro m member
  obtain ⟨s, q, present, queued, sent⟩ := mem_outbox.mp member
  have resumed := Broker.start_resumed restorable begun
  have past := run_continues resumed.orderly before (h := started fresh)
  have orderly := past.changes.orderly resumed.orderly
  have tenanted := past.changes.tenanted resumed.orderly (resumed.tenanted unspoiled)
  -- up to the creation of the session
  obtain ⟨_, created⟩ := Broker.claim_changes h.clients [] orderly claim
  obtain ⟨made, changed, absent, running, uid, entered⟩ := created claimed rfl new
  have ready := changed.orderly orderly
  have tenant := (changed.tenanted orderly tenanted).created ready absent running c.clean
    fun p => (claimed.uid, p) ∈ h.handed
  have created := ready.create absent c.clean
  -- from there on
  have tenant := entered.tenant created tenant fun _ member => nomatch member
  have orderly := entered.orderly created
  have future := run_continues orderly after (h := { broker := b, clients })
  rw [← reached] at future
  have tenant := future.changes.tenant orderly tenant fun p member => uid ▸ member
  rw [← uid] at tenant
  obtain ⟨_, owns⟩ := (future.changes.orderly orderly).owned claimed.uid s q present queued
  obtain ⟨bucket, found, _⟩ := owns.bucket (future.changes.orderly orderly).named
  exact (tenant.within s q bucket present queued found).outbox m sent

def freshOver (storage : Storage.Memory) : Broker :=
  (start {} storage 0 0).toOption.getD (.new {} storage 0 0)

def claimedOver (storage : Storage.Memory) : Broker × Except Failure Broker.Claimed :=
  (started (freshOver storage)).broker.claim { id := "c", clean := true } none true

def newSession (storage : Storage.Memory) (message : Option Publish) : History :=
  let b := (claimedOver storage).1
  let handed := match message with
    | none => []
    | some p => [.aside (b.enter p 1 .silent).1, .push 1 0]
  run { broker := b, clients := [⟨1, none, .everything⟩] }
    ([.subscribe 0 [("a", .atLeastOnce)]] ++ handed ++
      [.turns 1 [.receive, .store 0 0 false, .read 0 false, .read 0 false]])

def newMessage : Publish := { qos := .atLeastOnce, topic := "a", payload := [2] }

theorem newSession_sends_handed :
    (claimedOver {}).2 = .ok ⟨1, false, none⟩ ∧
      ((newSession {} (some newMessage)).outbox 1).map StoredMessage.message = [newMessage] ∧
      ∀ m ∈ (newSession {} (some newMessage)).outbox 1,
        m.From fun p => (1, p) ∈ (newSession {} (some newMessage)).handed := by
  have begun : start {} {} 0 0 = .ok (freshOver {}) := rfl
  have claim : ((started (freshOver {})).run []).broker.claim { id := "c", clean := true } none
      true = ((claimedOver {}).1, .ok ⟨1, false, none⟩) := rfl
  exact ⟨rfl, by decide,
    sent_of_handed Storage.Memory.restorable_empty begun [] claim rfl (Or.inl rfl) _ _ rfl⟩

def oldMessage : Publish := { qos := .atLeastOnce, topic := "a", payload := [1] }

/-- A bucket under the id of a client, with a record of its session that cannot be read. -/
def orphanedBucket : Storage.Memory where
  names := [("queue/c", 0)]
  buckets := [(0, { name := "queue/c", next := 2, records :=
    [{ offset := 1, time := 0, data := Codec.Binary.encode oldMessage }] })]
  opened := 1
  entries := [("session/c", [])]

theorem orphanedBucket_restorable : orphanedBucket.Restorable := by
  refine ⟨⟨fun name h held => ?_, fun h b found => ?_⟩, List.pairwise_singleton .., ?_⟩
  · have only : "queue/c" = name ∧ 0 = h := by
      simpa [orphanedBucket, Table.get?, List.find?_singleton] using held
    obtain ⟨rfl, rfl⟩ := only
    exact ⟨_, rfl, rfl⟩
  · have only : 0 = h := by
      have first := found
      simp [orphanedBucket, Storage.Memory.find?, Table.get?, List.find?_singleton] at first
      exact first.1
    exact only ▸ Nat.zero_lt_one
  · intro key data member _ info read
    simp only [orphanedBucket, List.mem_singleton, Prod.mk.injEq] at member
    obtain ⟨rfl, rfl⟩ := member
    have unreadable : Codec.Json.load? Codec.Json.toSession? [] = none := by decide
    rw [unreadable] at read
    cases read

/-- The new session sends what was in the bucket before it, and nothing was handed to it. -/
theorem orphanedBucket_sent :
    orphanedBucket.Restorable ∧ (claimedOver orphanedBucket).2 = .ok ⟨1, false, none⟩ ∧
      ((newSession orphanedBucket none).outbox 1).map StoredMessage.message = [oldMessage] ∧
      (newSession orphanedBucket none).handed = [] :=
  ⟨orphanedBucket_restorable, rfl, by decide, by decide⟩

end History

end MqttBroker
