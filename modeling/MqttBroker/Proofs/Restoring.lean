import MqttBroker.Proofs.Life

/-!
Starting over a storage. The sessions of the records come back one after the other, each with the
filters that its principal may still have.
-/

namespace MqttBroker

/-- A storage as a broker leaves it, whenever it stops: names lead to buckets, and a record of a
session that can be read is filed under the id of the session. -/
structure Storage.Memory.Restorable (m : Storage.Memory) : Prop where
  named : m.Named
  filed : Filed m.entries

theorem Storage.Memory.restorable_empty : Restorable {} := ⟨named_empty, filed_empty⟩

namespace Broker

def Entitled (b : Broker) (s : Session) : Prop :=
  ∀ filter, s.holds filter = true → ∃ grants,
    s.info.principal.bind b.access.lookup = some grants ∧
      grants.authorizes .subscribe filter = true

structure Restoring (base b : Broker) (s : Session) : Prop where
  orderly : b.Orderly [s.uid]
  found : ∀ w, b.session? w = if w = s.uid then some s else base.session? w
  live : s.closed = false
  entitled : b.Entitled s
  registry : b.registry = base.registry
  access : b.access = base.access
  shuttingDown : b.shuttingDown = base.shuttingDown
  elsewhere : base.storage.Local (Session.bucketName s.info.id) b.storage

namespace Restoring

variable {base b b' : Broker} {s : Session}

theorem present (restoring : Restoring base b s) : b.session? s.uid = some s := by
  rw [restoring.found, if_pos rfl]

theorem reformed (restoring : Restoring base b s) {s' : Session} (reforms : Reforms b b' s s')
    (orderly : b'.Orderly [s.uid]) (live : s'.closed = false) (entitled : b'.Entitled s')
    (registry : b'.registry = b.registry) : Restoring base b' s' where
  orderly := reforms.uid.symm ▸ orderly
  found w := by
    rw [reforms.found, reforms.uid]
    split
    · rfl
    · rename_i other
      rw [restoring.found, if_neg other]
  live := live
  entitled := entitled
  registry := registry.trans restoring.registry
  access := reforms.access.trans restoring.access
  shuttingDown := reforms.shuttingDown.trans restoring.shuttingDown
  elsewhere := by
    rw [reforms.id]
    rcases reforms.spares with ⟨names, buckets⟩ | ⟨_, elsewhere⟩
    · exact restoring.elsewhere.trans (.of_eq names buckets)
    · exact restoring.elsewhere.trans elsewhere

theorem subscribe (restoring : Restoring base b s) {filter : String} {qos : QoS} {added : Bool}
    {grants : Grants} (granted : s.info.principal.bind b.access.lookup = some grants)
    (authorized : grants.authorizes .subscribe filter = true)
    (done : b.subscribe s.uid filter qos = .ok (b', added)) :
    ∃ s', s'.uid = s.uid ∧ s'.info.id = s.info.id ∧ s'.info.principal = s.info.principal ∧
      Restoring base b' s' := by
  obtain ⟨x, s', present, _, _, closed, info, registry, reforms⟩ :=
    restoring.orderly.reforms_subscribe done
  rw [restoring.present] at present
  cases present
  refine ⟨s', reforms.uid, reforms.id, by rw [info], ?_⟩
  refine restoring.reformed reforms (restoring.orderly.subscribe done) (closed.trans restoring.live)
    ?_ registry
  intro other held
  rw [Session.holds, info, Session.holds_insert, Bool.or_eq_true] at held
  rw [info, reforms.access]
  rcases held with same | before
  · rw [of_decide_eq_true same]
    exact ⟨grants, granted, authorized⟩
  · exact restoring.entitled other before

theorem subscriptions (restoring : Restoring base b s) {entries : Table String QoS} {dropped : Nat}
    (done : restoreSubscriptions s.uid (s.info.principal.bind b.access.lookup) entries b =
      .ok (b', dropped)) :
    ∃ s', s'.uid = s.uid ∧ s'.info.id = s.info.id ∧ s'.info.principal = s.info.principal ∧
      Restoring base b' s' := by
  induction entries generalizing b s dropped with
  | nil =>
      cases done
      exact ⟨s, rfl, rfl, rfl, restoring⟩
  | cons entry rest ih =>
      obtain ⟨filter, qos⟩ := entry
      simp only [restoreSubscriptions] at done
      split at done
      · rename_i checked
        obtain ⟨grants, granted, authorized⟩ := checkFilter_authorizes checked
        simp only [bind_eq_ok] at done
        obtain ⟨⟨next, added⟩, subscribed, done⟩ := done
        obtain ⟨s', uid, id, principal, restoring'⟩ :=
          restoring.subscribe granted authorized subscribed
        have access : next.access = b.access := restoring'.access.trans restoring.access.symm
        rw [← uid, ← principal, ← access] at done
        obtain ⟨s'', uid', id', principal', restored⟩ := ih restoring' done
        exact ⟨s'', uid'.trans uid, id'.trans id, principal'.trans principal, restored⟩
      · simp only [bind_eq_ok] at done
        obtain ⟨⟨next, n⟩, restored, same⟩ := done
        cases same
        exact ih restoring restored

theorem beside (restoring : Restoring base b s) (beside : Beside b b') : Restoring base b' s where
  orderly := restoring.orderly.beside beside.keeps beside.registry
  found w := by
    rw [beside.keeps.session?]
    exact restoring.found w
  live := restoring.live
  entitled := by
    unfold Entitled
    rw [beside.access]
    exact restoring.entitled
  registry := beside.registry.trans restoring.registry
  access := beside.access.trans restoring.access
  shuttingDown := beside.shuttingDown.trans restoring.shuttingDown
  elsewhere := restoring.elsewhere.trans (.of_eq beside.names beside.buckets)

theorem cleared (restoring : Restoring base b s) (idle : s.queues = none)
    {storage : Storage.Memory} {h : Storage.Handle}
    (opened : b.storage.bucket (Session.bucketName s.info.id) = .ok (storage, h)) :
    Restoring base { b with storage := storage.closeBucket h true } s ∧
      (storage.closeBucket h true).names.get? (Session.bucketName s.info.id) = none := by
  obtain ⟨named, elsewhere, held⟩ := restoring.orderly.named.bucket opened
  obtain ⟨bucket, found, own⟩ := named.named _ h held
  have cleared := Storage.Memory.closeBucket_local found true
  rw [own] at cleared
  have reforms : Reforms b { b with storage := storage.closeBucket h true } s s := by
    refine ⟨restoring.present, fun w => ?_, rfl, rfl, rfl, rfl, rfl,
      fun _ => named.closeBucket h true, Or.inr ⟨restoring.live, elsewhere.trans cleared⟩, ?_⟩
    · split
      · rename_i same
        exact same ▸ restoring.present
      · rfl
    · intro q queued
      rw [idle] at queued
      cases queued
  refine ⟨restoring.reformed reforms ?_ restoring.live restoring.entitled rfl, ?_⟩
  · exact restoring.orderly.reformed reforms rfl (fun _ => rfl)
      (restoring.orderly.supplied s.uid s restoring.present) rfl
      (restoring.orderly.routed_put reforms rfl rfl rfl)
  · rw [Storage.Memory.closeBucket_clean found]
    simp [Table.get?_erase, own]

end Restoring

structure Returned (b b' : Broker) (s : Session) : Prop where
  orderly : b'.Orderly
  found : ∀ w, b'.session? w = if w = s.uid then some s else b.session? w
  entitled : b'.Entitled s
  registry : b'.registry = b.registry.insert s.info.id s.uid
  access : b'.access = b.access
  shuttingDown : b'.shuttingDown = b.shuttingDown
  elsewhere : b.storage.Local (Session.bucketName s.info.id) b'.storage
  housed : s.queues.isSome = true ∨
    b'.storage.names.get? (Session.bucketName s.info.id) = none

theorem Restoring.begin {b : Broker} (orderly : b.Orderly) {info : SessionInfo}
    (only : ∀ uid x, b.session? uid = some x → x.info.id ≠ info.id) :
    Restoring b (({ b with nextUid := b.nextUid + 1 }).putSession
        (Session.new b.nextUid { info with subscriptions := [] } b.settings.mqtt))
      (Session.new b.nextUid { info with subscriptions := [] } b.settings.mqtt) where
  orderly := orderly.added rfl rfl rfl rfl (fun w x present _ => only w x present)
    (fun _ => session?_putSession ..) rfl rfl rfl rfl
  found _ := session?_putSession ..
  live := rfl
  entitled _ held := nomatch held
  registry := rfl
  access := rfl
  shuttingDown := rfl
  elsewhere := .refl _ _

theorem Restoring.registered {base b b' : Broker} {s : Session} (restoring : Restoring base b s)
    (keeps : Keeps b b') (registry : b'.registry = b.registry.insert s.info.id s.uid)
    (access : b'.access = b.access) (shuttingDown : b'.shuttingDown = b.shuttingDown)
    (housed : s.queues.isSome = true ∨
      b.storage.names.get? (Session.bucketName s.info.id) = none) : Returned base b' s where
  orderly := restoring.orderly.registered restoring.present restoring.live keeps registry
  found w := by
    rw [keeps.session?]
    exact restoring.found w
  entitled := by
    unfold Entitled
    rw [access]
    exact restoring.entitled
  registry := by rw [registry, restoring.registry]
  access := access.trans restoring.access
  shuttingDown := shuttingDown.trans restoring.shuttingDown
  elsewhere := restoring.elsewhere.trans (.of_eq keeps.names keeps.buckets)
  housed := by
    rw [keeps.names]
    exact housed

def enroll (b : Broker) (id : String) (uid : SessionUid) : Except Failure Broker := do
  let b ← if (b.session? uid).any Session.isSubscribed then pure b
    else do
      let (storage, h) ← (b.storage.bucket (Session.bucketName id)).mapError .storage
      pure { b with storage := storage.closeBucket h true }
  return { b with registry := b.registry.insert id uid,
                  stats := { b.stats with sessions := b.stats.sessions.increment } }

theorem restoreSession_enroll (b : Broker) (info : SessionInfo) :
    b.restoreSession info = (do
      let grants := info.principal.bind b.access.lookup
      let s := Session.new b.nextUid { info with subscriptions := [] } b.settings.mqtt
      let (b, dropped) ← restoreSubscriptions s.uid grants info.subscriptions
        (({ b with nextUid := b.nextUid + 1 }).putSession s)
      let b ← if dropped > 0 then (b.persist s.uid).mapError .storage else pure b
      b.enroll info.id s.uid) :=
  rfl

theorem Restoring.enrolled {base b b' : Broker} {s : Session} (restoring : Restoring base b s)
    (done : b.enroll s.info.id s.uid = .ok b') : Returned base b' s := by
  have supplied := restoring.orderly.supplied s.uid s restoring.present restoring.live
  simp only [enroll, restoring.present, Option.any_some] at done
  split at done
  · rename_i subscribed
    cases done
    exact restoring.registered ⟨rfl, rfl, rfl, rfl, rfl, rfl⟩ rfl rfl rfl
      (Or.inl (supplied.trans subscribed))
  · rename_i unsubscribed
    simp only [bind_eq_ok, mapError_eq_ok] at done
    obtain ⟨⟨storage, h⟩, opened, _, emptied, done⟩ := done
    cases emptied
    cases done
    have idle : s.queues = none := by
      rw [Bool.eq_false_iff.mpr unsubscribed] at supplied
      simpa using supplied
    obtain ⟨cleared, free⟩ := restoring.cleared idle opened
    exact cleared.registered ⟨rfl, rfl, rfl, rfl, rfl, rfl⟩ rfl rfl rfl (Or.inr free)

/-- A session is restored in three parts: it takes up its subscriptions, is recorded again if it has
lost some, and is enrolled. -/
theorem restoreSession_parts {b b' : Broker} {info : SessionInfo}
    (done : b.restoreSession info = .ok b') :
    ∃ filled dropped kept, restoreSubscriptions b.nextUid (info.principal.bind b.access.lookup)
        info.subscriptions (({ b with nextUid := b.nextUid + 1 }).putSession
          (Session.new b.nextUid { info with subscriptions := [] } b.settings.mqtt)) =
          .ok (filled, dropped) ∧
      (dropped = 0 ∧ kept = filled ∨ 0 < dropped ∧ filled.persist b.nextUid = .ok kept) ∧
      kept.enroll info.id b.nextUid = .ok b' := by
  simp only [restoreSession_enroll, bind_eq_ok] at done
  obtain ⟨⟨filled, dropped⟩, restored, done⟩ := done
  refine ⟨filled, dropped, ?_⟩
  split at done
  · rename_i lost
    simp only [bind_eq_ok, mapError_eq_ok] at done
    obtain ⟨kept, stored, done⟩ := done
    exact ⟨kept, restored, Or.inr ⟨lost, stored⟩, done⟩
  · rename_i all
    exact ⟨filled, restored, Or.inl ⟨Nat.eq_zero_of_not_pos all, rfl⟩, done⟩

theorem restoreSession_ok {b b' : Broker} {info : SessionInfo}
    (done : b.restoreSession info = .ok b') :
    ∃ filled dropped kept, restoreSubscriptions b.nextUid (info.principal.bind b.access.lookup)
        info.subscriptions (({ b with nextUid := b.nextUid + 1 }).putSession
          (Session.new b.nextUid { info with subscriptions := [] } b.settings.mqtt)) =
          .ok (filled, dropped) ∧
      Beside filled kept ∧ kept.enroll info.id b.nextUid = .ok b' := by
  obtain ⟨filled, dropped, kept, restored, recorded, enrolled⟩ := restoreSession_parts done
  refine ⟨filled, dropped, kept, restored, ?_, enrolled⟩
  rcases recorded with ⟨_, rfl⟩ | ⟨_, stored⟩
  · exact .refl kept
  · exact persist_beside stored

theorem restoreSession_returns {b b' : Broker} (orderly : b.Orderly) {info : SessionInfo}
    (only : ∀ uid x, b.session? uid = some x → x.info.id ≠ info.id)
    (done : b.restoreSession info = .ok b') :
    ∃ s, s.info.id = info.id ∧ s.uid = b.nextUid ∧ Returned b b' s := by
  have begun := Restoring.begin orderly only
  obtain ⟨filled, dropped, kept, restored, recorded, enrolled⟩ := restoreSession_ok done
  obtain ⟨s, uid, id, _, restoring⟩ := begun.subscriptions restored
  have own : s.uid = b.nextUid := uid
  have same : s.info.id = info.id := id
  rw [← own, ← same] at enrolled
  exact ⟨s, same, own, (restoring.beside recorded).enrolled enrolled⟩

theorem Returned.find? {b b' : Broker} {s : Session} (returned : Returned b b' s)
    (orderly : b.Orderly) (own : s.uid = b.nextUid) (id : String) :
    b'.find? id = if id = s.info.id then some s else b.find? id := by
  rw [Broker.find?, returned.registry, Table.get?_insert]
  split
  · rw [Option.bind_some, returned.found, if_pos rfl]
  · rw [Broker.find?]
    cases entry : b.registry.get? id with
    | none => rfl
    | some w =>
        obtain ⟨x, present, _⟩ := orderly.live id w entry
        have older : w ≠ s.uid := by
          rw [own]
          exact Nat.ne_of_lt (orderly.own present).2
        rw [Option.bind_some, Option.bind_some, returned.found, if_neg older]

/-- A broker that has been started over a storage. Its sessions have the filters that they may have;
the bucket of a session without queues is gone; other buckets are as they were. -/
structure Resumed (storage : Storage.Memory) (b : Broker) : Prop where
  orderly : b.Orderly
  running : b.shuttingDown = false
  entitled : ∀ uid s, b.session? uid = some s → b.Entitled s
  housed : ∀ id s, b.find? id = some s → s.queues.isSome = true ∨
    b.storage.names.get? (Session.bucketName id) = none
  untouched : ∀ id, b.find? id = none → b.storage.names.get? (Session.bucketName id) =
    storage.names.get? (Session.bucketName id)

theorem Resumed.returned {storage : Storage.Memory} {b b' : Broker} (resumed : Resumed storage b)
    {s : Session} (own : s.uid = b.nextUid) (returned : Returned b b' s) : Resumed storage b' where
  orderly := returned.orderly
  running := returned.shuttingDown.trans resumed.running
  entitled uid x present := by
    rw [returned.found] at present
    split at present
    · cases present
      exact returned.entitled
    · unfold Entitled
      rw [returned.access]
      exact resumed.entitled uid x present
  housed id x found := by
    rw [returned.find? resumed.orderly own] at found
    split at found
    · rename_i same
      cases found
      exact same ▸ returned.housed
    · rename_i other
      rw [returned.elsewhere.names _ fun same => other (Session.bucketName_injective same)]
      exact resumed.housed id x found
  untouched id absent := by
    rw [returned.find? resumed.orderly own] at absent
    split at absent
    · cases absent
    · rename_i other
      rw [returned.elsewhere.names _ fun same => other (Session.bucketName_injective same)]
      exact resumed.untouched id absent

theorem Resumed.beside {storage : Storage.Memory} {b b' : Broker} (resumed : Resumed storage b)
    (beside : Beside b b') : Resumed storage b' where
  orderly := resumed.orderly.beside beside.keeps beside.registry
  running := beside.shuttingDown.trans resumed.running
  entitled uid x present := by
    rw [beside.keeps.session?] at present
    unfold Entitled
    rw [beside.access]
    exact resumed.entitled uid x present
  housed := by
    unfold find?
    rw [beside.keeps.session?, beside.registry, beside.names]
    exact resumed.housed
  untouched := by
    unfold find?
    rw [beside.keeps.session?, beside.registry, beside.names]
    exact resumed.untouched

theorem restoreAll_resumed {storage : Storage.Memory} {records : Table String Bytes} {b b' : Broker}
    (resumed : Resumed storage b) (distinct : records.keys.Nodup)
    (filed : ∀ key data, (key, data) ∈ records →
      ∀ info, Codec.Json.load? Codec.Json.toSession? data = some info → key = Session.key info.id)
    (apart : ∀ key ∈ records.keys, ∀ uid x, b.session? uid = some x → key ≠ Session.key x.info.id)
    (done : restoreAll records b = .ok b') : Resumed storage b' := by
  induction records generalizing b with
  | nil =>
      cases done
      exact resumed
  | cons record rest ih =>
      obtain ⟨key, data⟩ := record
      have distinct := List.nodup_cons.mp distinct
      have filedRest := fun other data member => filed other data (List.mem_cons_of_mem _ member)
      simp only [restoreAll] at done
      split at done
      · rename_i info decoded
        simp only [bind_eq_ok] at done
        obtain ⟨next, restored, done⟩ := done
        obtain ⟨decoded, _⟩ := Option.filter_eq_some_iff.mp decoded
        have own := filed key data (List.mem_cons_self ..) info decoded
        have only : ∀ uid x, b.session? uid = some x → x.info.id ≠ info.id := by
          intro uid x present same
          exact apart key (List.mem_cons_self ..) uid x present (same ▸ own)
        obtain ⟨s, id, uid, returned⟩ := restoreSession_returns resumed.orderly only restored
        refine ih (resumed.returned uid returned) distinct.2 filedRest ?_ done
        intro other member w x present
        rw [returned.found] at present
        split at present
        · cases present
          rintro rfl
          exact distinct.1 (own ▸ id ▸ member)
        · exact apart other (List.mem_cons_of_mem _ member) w x present
      · simp only [bind_eq_ok, mapError_eq_ok] at done
        obtain ⟨after, deleted, done⟩ := done
        obtain ⟨_, rfl⟩ := deleteEntry_ok deleted
        refine ih (resumed.beside ?_) distinct.2 filedRest ?_ done
        · exact ⟨rfl, rfl, rfl, rfl, rfl, rfl, rfl, rfl, rfl, rfl, fun filed => filed.erase key⟩
        · exact fun other member => apart other (List.mem_cons_of_mem _ member)

theorem Orderly.new (settings : Settings) {storage : Storage.Memory} (named : storage.Named)
    (now : Nat) (clock : Int64) : (Broker.new settings storage now clock).Orderly where
  routed := ⟨[], .new settings storage now clock⟩
  live _ _ entry := nomatch entry
  listed _ _ present := nomatch present
  alone _ _ _ _ present := nomatch present
  gone _ _ present := nomatch present
  supplied _ _ present := nomatch present
  named := named
  owned _ _ _ present := nomatch present

theorem start_resumed {settings : Settings} {storage : Storage.Memory} {now : Nat} {clock : Int64}
    {b : Broker} (restorable : storage.Restorable)
    (done : start settings storage now clock = .ok b) : Resumed storage b := by
  simp only [start, bind_eq_ok, mapError_eq_ok] at done
  obtain ⟨retain, _, records, listed, done⟩ := done
  have orderly := Orderly.new settings restorable.named now clock
  have begun : Resumed storage { Broker.new settings storage now clock with retain } := by
    refine ⟨orderly.beside ⟨rfl, rfl, rfl, rfl, rfl, rfl⟩ rfl, rfl, ?_, ?_, fun _ _ => rfl⟩
    · exact fun _ _ present => nomatch present
    · exact fun _ _ found => nomatch found
  have own : records = storage.entries.filter fun e => Text.startsWith Session.keyStart e.1 := by
    simp only [Storage.Memory.entriesUnder, bind_eq_ok] at listed
    obtain ⟨_, _, same⟩ := listed
    cases same
    rfl
  subst own
  refine restoreAll_resumed begun ?_ ?_ (fun _ _ _ _ present => nomatch present) done
  · exact restorable.filed.increasing.nodup.sublist (List.filter_sublist.map Prod.fst)
  · intro key data member
    obtain ⟨entry, under⟩ := List.mem_filter.mp member
    exact restorable.filed.own key data entry under

/-! The records while sessions are restored -/

theorem restoreSubscriptions_entries {b b' : Broker} {uid : SessionUid} {grants : Option Grants}
    {entries : Table String QoS} {dropped : Nat}
    (done : restoreSubscriptions uid grants entries b = .ok (b', dropped)) :
    b'.storage.entries = b.storage.entries := by
  induction entries generalizing b dropped with
  | nil =>
      cases done
      rfl
  | cons entry rest ih =>
      obtain ⟨filter, qos⟩ := entry
      simp only [restoreSubscriptions] at done
      split at done
      · simp only [bind_eq_ok] at done
        obtain ⟨⟨next, added⟩, subscribed, done⟩ := done
        exact (ih done).trans (subscribe_entries subscribed)
      · simp only [bind_eq_ok] at done
        obtain ⟨⟨next, n⟩, restored, same⟩ := done
        cases same
        exact ih restored

theorem enroll_entries {b b' : Broker} {id : String} {uid : SessionUid}
    (done : b.enroll id uid = .ok b') : b'.storage.entries = b.storage.entries := by
  simp only [enroll] at done
  split at done
  · cases done
    rfl
  · simp only [bind_eq_ok, mapError_eq_ok] at done
    obtain ⟨⟨storage, h⟩, opened, _, emptied, done⟩ := done
    cases emptied
    cases done
    exact (storage.closeBucket_entries h true).trans (Storage.Memory.bucket_entries opened)

theorem restoreSession_filed {b b' : Broker} {info : SessionInfo}
    (filed : Storage.Filed b.storage.entries) (done : b.restoreSession info = .ok b') :
    Storage.Filed b'.storage.entries := by
  obtain ⟨filled, dropped, kept, restored, recorded, enrolled⟩ := restoreSession_ok done
  rw [enroll_entries enrolled]
  exact recorded.filed (restoreSubscriptions_entries restored ▸ filed)

theorem restoreAll_filed {records : Table String Bytes} {b b' : Broker}
    (filed : Storage.Filed b.storage.entries) (done : restoreAll records b = .ok b') :
    Storage.Filed b'.storage.entries := by
  induction records generalizing b with
  | nil =>
      cases done
      exact filed
  | cons record rest ih =>
      obtain ⟨key, data⟩ := record
      simp only [restoreAll] at done
      split at done
      · simp only [bind_eq_ok] at done
        obtain ⟨next, restored, done⟩ := done
        exact ih (restoreSession_filed filed restored) done
      · simp only [bind_eq_ok, mapError_eq_ok] at done
        obtain ⟨after, deleted, done⟩ := done
        obtain ⟨_, rfl⟩ := deleteEntry_ok deleted
        exact ih (filed.erase key) done

theorem start_filed {settings : Settings} {storage : Storage.Memory} {now : Nat} {clock : Int64}
    {b : Broker} (restorable : storage.Restorable)
    (done : start settings storage now clock = .ok b) : Storage.Filed b.storage.entries := by
  simp only [start, bind_eq_ok] at done
  obtain ⟨_, _, _, _, done⟩ := done
  exact restoreAll_filed restorable.filed done

/-! What a start preserves -/

/-- All steps of a start preserve the property. -/
structure StartKeeps (P : Broker → Prop) : Prop where
  added : ∀ {b : Broker} (info : SessionInfo), P b →
    P (({ b with nextUid := b.nextUid + 1 }).putSession
      (Session.new b.nextUid { info with subscriptions := [] } b.settings.mqtt))
  subscribed : ∀ {b b' : Broker} {uid filter qos added}, P b →
    b.subscribe uid filter qos = .ok (b', added) → P b'
  recorded : ∀ {b b' : Broker} {uid}, P b → b.persist uid = .ok b' → P b'
  enrolled : ∀ {b b' : Broker} {id uid}, P b → b.enroll id uid = .ok b' → P b'
  deleted : ∀ {b : Broker} {storage key}, P b → b.storage.deleteEntry key = .ok storage →
    P { b with storage }

namespace StartKeeps

variable {P : Broker → Prop} (keeps : StartKeeps P)

include keeps

theorem restoreSubscriptions {b b' : Broker} (holds : P b) {uid : SessionUid}
    {grants : Option Grants} {entries : Table String QoS} {dropped : Nat}
    (done : restoreSubscriptions uid grants entries b = .ok (b', dropped)) : P b' := by
  induction entries generalizing b dropped with
  | nil =>
      cases done
      exact holds
  | cons entry rest ih =>
      obtain ⟨filter, qos⟩ := entry
      simp only [Broker.restoreSubscriptions] at done
      split at done
      · simp only [bind_eq_ok] at done
        obtain ⟨⟨next, added⟩, subscribed, done⟩ := done
        exact ih (keeps.subscribed holds subscribed) done
      · simp only [bind_eq_ok] at done
        obtain ⟨⟨next, n⟩, restored, same⟩ := done
        cases same
        exact ih holds restored

theorem restoreSession {b b' : Broker} (holds : P b) {info : SessionInfo}
    (done : b.restoreSession info = .ok b') : P b' := by
  obtain ⟨filled, dropped, kept, restored, recorded, enrolled⟩ := restoreSession_parts done
  have filled := keeps.restoreSubscriptions (keeps.added info holds) restored
  rcases recorded with ⟨_, rfl⟩ | ⟨_, stored⟩
  · exact keeps.enrolled filled enrolled
  · exact keeps.enrolled (keeps.recorded filled stored) enrolled

theorem restoreAll {b b' : Broker} (holds : P b) {records : Table String Bytes}
    (done : restoreAll records b = .ok b') : P b' := by
  induction records generalizing b with
  | nil =>
      cases done
      exact holds
  | cons record rest ih =>
      simp only [Broker.restoreAll] at done
      split at done
      · simp only [bind_eq_ok] at done
        obtain ⟨next, restored, done⟩ := done
        exact ih (keeps.restoreSession holds restored) done
      · simp only [bind_eq_ok, mapError_eq_ok] at done
        obtain ⟨storage, deleted, done⟩ := done
        exact ih (keeps.deleted holds deleted) done

theorem start {settings : Settings} {storage : Storage.Memory} {now : Nat} {clock : Int64}
    {b : Broker}
    (begun : ∀ retain, (Broker.new settings storage now clock).retain.load storage = .ok retain →
      P { Broker.new settings storage now clock with retain })
    (done : start settings storage now clock = .ok b) : P b := by
  simp only [Broker.start, bind_eq_ok, mapError_eq_ok] at done
  obtain ⟨retain, loaded, records, _, done⟩ := done
  exact keeps.restoreAll (begun retain loaded) done

end StartKeeps

end Broker

end MqttBroker
