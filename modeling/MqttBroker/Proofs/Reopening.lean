import MqttBroker.Broker.Clock
import MqttBroker.Proofs.Upkeep

/-!
From one broker to the next. A broker that is shut down leaves the records of the sessions that are
not clean, and no bucket but theirs; a broker that is started over that has these sessions, with the
filters that they may still have.
-/

namespace MqttBroker

namespace Storage.Memory

/-- Each record is one of a session that can be restored from it, and there is no bucket without a
record. -/
structure Canonical (m : Memory) : Prop where
  named : m.Named
  filed : Filed m.entries
  opened : m.closed = false
  recorded : ∀ id data, m.entries.get? (Session.key id) = some data →
    ∃ info : SessionInfo, info.id = id ∧ info.Tidy ∧ info.record? = some data
  vacant : ∀ id, m.entries.get? (Session.key id) = none →
    m.names.get? (Session.bucketName id) = none

theorem canonical_empty : Canonical {} where
  named := named_empty
  filed := filed_empty
  opened := rfl
  recorded _ _ held := nomatch held
  vacant _ _ := rfl

def sessionRecords (m : Memory) : Table String Bytes :=
  m.entries.filter fun e => Text.startsWith Session.keyStart e.1

theorem entriesUnder_ok {m : Memory} {start : String} {t : Table String Bytes}
    (listed : m.entriesUnder start = .ok t) : m.closed = false := by
  simp only [entriesUnder, checkOpen, bind_eq_ok] at listed
  obtain ⟨_, opened, _⟩ := listed
  split at opened
  · cases opened
  · rename_i live
    simpa using live

end Storage.Memory

namespace Storage.Filed

variable {m : Memory} (filed : Filed m.entries)

include filed

theorem mem_sessionRecords {key : String} {data : Bytes} :
    (key, data) ∈ m.sessionRecords ↔
      ∃ id, key = Session.key id ∧ m.entries.get? key = some data := by
  unfold Memory.sessionRecords
  rw [List.mem_filter, filed.increasing.mem_iff, Session.startsWith_keyStart, and_comm]
  exact exists_and_right.symm

theorem mem_recordKeys {id : String} :
    Session.key id ∈ m.sessionRecords.keys ↔ m.entries.get? (Session.key id) ≠ none := by
  constructor
  · intro member
    obtain ⟨⟨key, data⟩, record, rfl⟩ := List.mem_map.mp member
    obtain ⟨_, _, held⟩ := filed.mem_sessionRecords.mp record
    exact fun none => nomatch held.symm.trans none
  · intro held
    obtain ⟨data, held⟩ := Option.ne_none_iff_exists'.mp held
    exact List.mem_map_of_mem (filed.mem_sessionRecords.mpr ⟨id, rfl, held⟩)

theorem recordKeys_nodup : m.sessionRecords.keys.Nodup :=
  filed.increasing.nodup.sublist (List.filter_sublist.map Prod.fst)

end Storage.Filed

namespace Broker

variable {b b' : Broker}

/-! Shutting down -/

/-- A broker that closes its sessions, which are recorded as they should be. Every bucket without a
record is that of a session that is still to be closed. -/
structure Closing (records : String → Option Bytes) (loose : List SessionUid) (b : Broker) :
    Prop where
  orderly : b.Orderly loose
  registry : b.registry = []
  opened : b.storage.closed = false
  silent : b.peers = [] ∧ b.callers = []
  recorded : ∀ id, b.record? id = records id
  unrecorded : ∀ uid s, b.session? uid = some s → s.closed = false →
    (records s.info.id = none ↔ s.info.cleanSession = true)
  tenanted : ∀ id, records id = none → b.storage.names.get? (Session.bucketName id) ≠ none →
    ∃ uid s, b.session? uid = some s ∧ s.closed = false ∧ s.info.id = id ∧
      s.queues.isSome = true

theorem closeSession_record (opened : b.storage.closed = false) {uid : SessionUid} {s : Session}
    (present : b.session? uid = some s) (live : s.closed = false) {cleanup : Bool}
    (unrecorded : cleanup = true → b.record? s.info.id = none) (id : String) :
    (b.closeSession uid cleanup).1.record? id = b.record? id := by
  unfold record? at unrecorded ⊢
  cases cleanup with
  | true =>
      rw [closeSession_erases opened present live, Table.get?_erase]
      by_cases own : Session.key id = Session.key s.info.id
      · rw [if_pos own, own, unrecorded rfl]
      · rw [if_neg own]
  | false =>
      obtain ⟨entries, _, _, _, _, _, kept, _, after⟩ := closeSession_changes present live false
      have same : entries = b.storage.entries := by
        rcases kept with rfl | ⟨cleaned, _⟩
        · exact b.storageWithout_entries s false
        · cases cleaned
      rw [after, ← same]
      rfl

theorem Closing.bucket_gone {records : String → Option Bytes} {loose : List SessionUid}
    (closing : Closing records loose b) {s : Session} (present : b.session? s.uid = some s)
    (live : s.closed = false) (none : records s.info.id = none) :
    (b.storageWithout s true).names.get? (Session.bucketName s.info.id) = Option.none := by
  rcases (closing.orderly.storageWithout present true).2 with ⟨same, idle⟩ | ⟨_, _, _, free⟩
  · -- a bucket without a queue would be that of another session with the id
    rw [same]
    by_contra bucket
    obtain ⟨w, x, here, open', theirs, filled⟩ := closing.tenanted s.info.id none bucket
    obtain rfl := closing.orderly.alone w s.uid x s here present open' live theirs
    cases here.symm.trans present
    rw [idle] at filled
    cases filled
  · exact free rfl

theorem Closing.closeSession {records : String → Option Bytes} {uid : SessionUid}
    {loose : List SessionUid} (closing : Closing records (uid :: loose) b) :
    Closing records loose
      (b.closeSession uid ((b.session? uid).any fun s => s.info.cleanSession)).1 := by
  have absent : ∀ id, b.registry.get? id ≠ some uid := by
    intro id entry
    rw [closing.registry] at entry
    cases entry
  have orderly := closing.orderly.closeSession absent
    ((b.session? uid).any fun s => s.info.cleanSession)
  rcases b.closeSession_cases uid ((b.session? uid).any fun s => s.info.cleanSession) with
    ⟨_, same⟩ | ⟨s, present, live⟩
  · rw [same] at orderly ⊢
    exact ⟨orderly, closing.registry, closing.opened, closing.silent, closing.recorded,
      closing.unrecorded, closing.tenanted⟩
  · obtain ⟨rfl, _⟩ := closing.orderly.own present
    simp only [present, Option.any_some] at orderly ⊢
    have marked := closing.unrecorded s.uid s present live
    have opened := b.closeSession_opened s.uid s.info.cleanSession
    have records := closeSession_record closing.opened present live
      fun clean => (closing.recorded _).trans (marked.mpr clean)
    obtain ⟨s', kept, closed, _, _, _, _, storage, registry, reforms⟩ :=
      closing.orderly.reforms_closeSession present live s.info.cleanSession
    -- a session that is open afterwards was not the one that is closed
    have later : ∀ w x, (b.closeSession s.uid s.info.cleanSession).1.session? w = some x →
        x.closed = false → b.session? w = some x := by
      intro w x here open'
      rw [reforms.found] at here
      split at here
      · cases here
        rw [closed] at open'
        cases open'
      · exact here
    refine ⟨orderly, registry.trans closing.registry, opened.trans closing.opened, ?_, ?_, ?_, ?_⟩
    · obtain ⟨_, _, _, _, _, _, _, _, after⟩ :=
        closeSession_changes present live s.info.cleanSession
      rw [after]
      exact closing.silent
    · exact fun id => (records id).trans (closing.recorded id)
    · exact fun w x here open' => closing.unrecorded w x (later w x here open') open'
    · intro id none bucket
      rw [storage] at bucket
      by_cases own : s.info.id = id
      · rw [marked.mp (own ▸ none)] at bucket
        exact absurd (own ▸ closing.bucket_gone present live (own ▸ none)) bucket
      · have elsewhere := reforms.names_elsewhere own
        rw [storage] at elsewhere
        rw [elsewhere] at bucket
        obtain ⟨w, x, here, open', theirs, filled⟩ := closing.tenanted id none bucket
        refine ⟨w, x, ?_, open', theirs, filled⟩
        rw [reforms.found, if_neg]
        · exact here
        · rintro rfl
          cases here.symm.trans present
          exact own theirs

theorem Closing.closeAll {records : String → Option Bytes} {uids : List SessionUid}
    (closing : Closing records uids b) : Closing records [] (uids.foldl closeListed b) := by
  induction uids generalizing b with
  | nil => exact closing
  | cons uid rest ih =>
      rw [List.foldl_cons]
      apply ih
      have closed := closing.closeSession
      exact ⟨closed.orderly.beside ⟨rfl, rfl, rfl, rfl, rfl, rfl⟩ rfl, closed.registry,
        closed.opened, closed.silent, closed.recorded, closed.unrecorded, closed.tenanted⟩

theorem Upright.closeSessions (upright : b.Upright) :
    Closing b.record? [] ({ b with shuttingDown := true } : Broker).closeSessions := by
  rw [closeSessions_closeListed]
  apply Closing.closeAll
  refine ⟨?_, rfl, upright.ready.opened, ⟨upright.ready.peers, upright.ready.callers⟩,
    fun _ => rfl, fun uid s present live => ?_, fun id _ bucket => ?_⟩
  · exact upright.orderly.unlistedAll.beside ⟨rfl, rfl, rfl, rfl, rfl, rfl⟩ rfl
  · have found := upright.orderly.find?_of_live present live
    rw [(upright.mirrored s.info.id).recorded, (upright.info found).1, Option.bind_some]
    unfold SessionInfo.record?
    cases s.info.cleanSession <;> simp
  · exact upright.tenanted id upright.ready.running bucket

theorem withQueue_idle (idle : ∀ uid s, b.session? uid = some s → s.queues = none)
    (uid : SessionUid) (act : StoredQueue EventId → Storage.Memory → QueueWork EventId) :
    b.withQueue uid act = b := by
  unfold withQueue
  split
  · rfl
  · rename_i s present
    rw [idle uid s present]

theorem settle_idle (idle : ∀ uid s, b.session? uid = some s → s.queues = none)
    (peers : b.peers = []) (callers : b.callers = []) : b.settle = b := by
  have still : ∀ uids : List SessionUid, uids.foldl (fun b uid =>
      b.withQueue uid fun q m => q.settle m b.now b.clock) b = b := by
    intro uids
    induction uids with
    | nil => rfl
    | cons uid rest ih =>
        rw [List.foldl_cons, withQueue_idle idle]
        exact ih
  have same : b.settleQueues = b := still b.sessions.keys
  unfold settle
  cases b.work with
  | zero => rfl
  | succ fuel => rw [rounds, round_idle (same.symm ▸ peers) (same.symm ▸ callers), same]

theorem Upright.shutDown (upright : b.Upright) : b.shutDown =
    { ({ b with shuttingDown := true } : Broker).closeSessions with
      storage := ({ b with shuttingDown := true } : Broker).closeSessions.storage.close } := by
  have closing := upright.closeSessions
  have nobody : ({ b with shuttingDown := true } : Broker).served.isEmpty = true := by
    rw [List.isEmpty_iff]
    exact upright.ready.served
  have drained : drain 500 { b with shuttingDown := true } = { b with shuttingDown := true } := by
    rw [drain, if_pos nobody]
  have told : b.served.foldl cancel { b with shuttingDown := true } =
      { b with shuttingDown := true } := by
    rw [upright.ready.served]
    rfl
  simp only [Broker.shutDown, upright.ready.running, Bool.false_eq_true, if_false, told, drained]
  -- every session is closed by now, so no queue is left to settle
  refine settle_idle (fun uid s present => ?_) closing.silent.1 closing.silent.2
  cases closed : s.closed with
  | true => exact closing.orderly.idle present closed
  | false =>
      have entry := closing.orderly.listed uid s present closed List.not_mem_nil
      rw [closing.registry] at entry
      cases entry

theorem Upright.lieDown (upright : b.Upright) :
    b.lieDown.storage.Canonical ∧ b.lieDown.peers = [] := by
  have closing := upright.closeSessions
  have filed : Storage.Filed ({ b with shuttingDown := true } : Broker).closeSessions.storage.entries :=
    closeSessions_filed upright.filed
  simp only [Broker.lieDown, upright.shutDown]
  refine ⟨⟨closing.orderly.named.of_eq rfl rfl rfl, filed, rfl, fun id data held => ?_,
    fun id none => ?_⟩, closing.silent.1⟩
  · have record : b.record? id = some data := (closing.recorded id).symm.trans held
    rw [(upright.mirrored id).recorded] at record
    obtain ⟨info, present, recorded⟩ := Option.bind_eq_some_iff.mp record
    obtain ⟨s, live, rfl⟩ := Option.map_eq_some_iff.mp present
    exact ⟨s.info, (upright.orderly.find?_some live).2.1, (upright.info live).2, recorded⟩
  · by_contra bucket
    obtain ⟨w, x, here, live, _⟩ :=
      closing.tenanted id ((closing.recorded id).symm.trans none) bucket
    have entry := closing.orderly.listed w x here live List.not_mem_nil
    rw [closing.registry] at entry
    cases entry

/-! Starting -/

theorem startKeeps_ready : StartKeeps Ready where
  added _ ready := ready.same rfl rfl rfl rfl rfl
  subscribed ready done := subscribe_ready ready done
  recorded ready done := by
    have opened := persist_opened done
    rcases persist_changes done with rfl | ⟨_, _, _, _, rfl⟩
    · exact ready
    · exact ready.same rfl opened rfl rfl rfl
  enrolled ready done := by
    simp only [enroll] at done
    split at done
    · cases done
      exact ready.same rfl rfl rfl rfl rfl
    · simp only [bind_eq_ok, mapError_eq_ok] at done
      obtain ⟨⟨storage, h⟩, opened, _, emptied, done⟩ := done
      cases emptied
      cases done
      have same := (storage.closeBucket_opened h true).trans (Storage.Memory.bucket_opened opened)
      exact ready.same rfl same rfl rfl rfl
  deleted ready done := by
    obtain ⟨_, rfl⟩ := deleteEntry_ok done
    exact ready.same rfl rfl rfl rfl rfl

def admits (settings : Settings) (grants : Option Grants) (filter : String) : Bool :=
  (Topic.validate filter true settings.mqtt.maxTopicLevels).isOk &&
    grants.any fun g => g.authorizes .subscribe filter

/-- The subscriptions with admitted filters, as they are granted now. -/
def admitted (settings : Settings) (grants : Option Grants) (t : Table String QoS) :
    Table String QoS :=
  (t.filter fun e => admits settings grants e.1).map fun e => (e.1, e.2.lower .atLeastOnce)

def refused (settings : Settings) (grants : Option Grants) (t : Table String QoS) : Nat :=
  t.countP fun e => !admits settings grants e.1

theorem checkFilter_eq_ok {grants : Option Grants} {filter : String} :
    b.checkFilter grants filter = .ok () ↔ admits b.settings grants filter = true := by
  unfold checkFilter admits
  cases Topic.validate filter true b.settings.mqtt.maxTopicLevels with
  | error e => simp [Except.isOk, Except.toBool, Except.mapError, Bind.bind, Except.bind]
  | ok pattern =>
      cases granted : grants.any fun g => g.authorizes .subscribe filter <;>
        simp [Except.isOk, Except.toBool, Except.mapError, Bind.bind, Except.bind, pure,
          Except.pure, throw, throwThe, MonadExceptOf.throw]

theorem admitted_increasing (settings : Settings) (grants : Option Grants) {t : Table String QoS}
    (increasing : t.Increasing) : (admitted settings grants t).Increasing := by
  have fewer : Table.Increasing (t.filter fun e => admits settings grants e.1) :=
    increasing.sublist List.filter_sublist
  exact fewer.of_keys List.map_map

theorem admitted_cons {settings : Settings} {grants : Option Grants} {filter : String}
    (allowed : admits settings grants filter = true) (qos : QoS) (t : Table String QoS) :
    admitted settings grants ((filter, qos) :: t) =
      (filter, qos.lower .atLeastOnce) :: admitted settings grants t := by
  unfold admitted
  rw [List.filter_cons_of_pos (by exact allowed), List.map_cons]

theorem admitted_cons_refused {settings : Settings} {grants : Option Grants} {filter : String}
    (denied : admits settings grants filter = false) (qos : QoS) (t : Table String QoS) :
    admitted settings grants ((filter, qos) :: t) = admitted settings grants t := by
  unfold admitted
  rw [List.filter_cons_of_neg (by simp [denied])]

theorem admitted_of_supported {settings : Settings} {grants : Option Grants} {t : Table String QoS}
    (supported : ∀ e ∈ t, e.2 ≠ .exactlyOnce) :
    admitted settings grants t = t.filter fun e => admits settings grants e.1 := by
  have same : ∀ e ∈ t.filter fun e => admits settings grants e.1,
      (e.1, e.2.lower .atLeastOnce) = id e := by
    intro e member
    rw [QoS.lower_of_supported (supported e (List.mem_of_mem_filter member))]
    rfl
  exact (List.map_congr_left same).trans (List.map_id _)

theorem admits_of_refused {settings : Settings} {grants : Option Grants} {t : Table String QoS}
    (none : refused settings grants t = 0) : ∀ e ∈ t, admits settings grants e.1 = true := by
  simpa [refused, List.countP_eq_zero] using none

theorem subscribe_settings {uid : SessionUid} {filter : String} {qos : QoS} {added : Bool}
    (done : b.subscribe uid filter qos = .ok (b', added)) : b'.settings = b.settings := by
  obtain ⟨_, _, _, _, _, _, _, _, _, _, _, _, rfl⟩ := subscribe_changes done
  rfl

theorem subscribe_storage (named : b.storage.Named) {uid : SessionUid} {filter : String} {qos : QoS}
    {added : Bool} (done : b.subscribe uid filter qos = .ok (b', added)) :
    b.storage.Spares b'.storage := by
  obtain ⟨_, _, _, _, _, _, _, _, _, _, provided, _, rfl⟩ := subscribe_changes done
  cases provided with
  | before _ => exact .refl b.storage
  | now _ opened => exact named.bucket_spares opened

theorem restoreSubscriptions_admits {loose : List SessionUid} {uid : SessionUid} {s : Session}
    (grants : Option Grants) (entries : Table String QoS) (orderly : b.Orderly loose)
    (ready : b.Ready) (present : b.session? uid = some s) (live : s.closed = false)
    (increasing : Table.Increasing (s.info.subscriptions ++ entries)) :
    ∃ b' s', restoreSubscriptions uid grants entries b =
        .ok (b', refused b.settings grants entries) ∧
      b'.session? uid = some s' ∧ b.storage.Spares b'.storage ∧
      s'.info = { s.info with
        subscriptions := s.info.subscriptions ++ admitted b.settings grants entries } := by
  -- what the session has taken up so far stands before the entries that are left
  induction entries generalizing b s with
  | nil => exact ⟨b, s, rfl, present, .refl b.storage, by simp [admitted]⟩
  | cons entry rest ih =>
      obtain ⟨filter, qos⟩ := entry
      simp only [restoreSubscriptions]
      split
      · rename_i checked
        have allowed := checkFilter_eq_ok.mp checked
        obtain ⟨pattern, parsed⟩ := checkFilter_parsed checked
        obtain ⟨next, added, subscribed⟩ :=
          subscribe_succeeds ready.opened present live parsed (qos.lower .atLeastOnce)
        obtain ⟨x, s', here, _, _, closed, info, _, reforms⟩ :=
          orderly.reforms_subscribe subscribed
        cases present.symm.trans here
        have found : next.session? uid = some s' := by
          rw [reforms.found, if_pos (orderly.own present).1.symm]
        have granted : Table.Increasing
            (s.info.subscriptions ++ (filter, qos.lower .atLeastOnce) :: rest) :=
          increasing.of_keys (by simp [Table.keys])
        have grown : s'.info.subscriptions =
            s.info.subscriptions ++ [(filter, qos.lower .atLeastOnce)] := by
          rw [info, granted.insert_next]
        have longer : s.info.subscriptions ++ (filter, qos.lower .atLeastOnce) :: rest =
            s'.info.subscriptions ++ rest := by
          rw [grown, List.append_assoc, List.singleton_append]
        obtain ⟨b', s'', done, last, spared, taken⟩ :=
          ih (orderly.subscribe subscribed) (subscribe_ready ready subscribed) found
            (closed.trans live) (longer ▸ granted)
        rw [subscribe_settings subscribed] at done taken
        refine ⟨b', s'', ?_, last, (subscribe_storage orderly.named subscribed).trans spared, ?_⟩
        · simp [subscribed, done, Bind.bind, Except.bind, refused, allowed]
        · rw [admitted_cons allowed, ← List.singleton_append, ← List.append_assoc, ← grown, taken,
            info]
      · rename_i refusal checked
        have denied : admits b.settings grants filter = false := by
          rw [Bool.eq_false_iff]
          intro allowed
          cases checked.symm.trans (checkFilter_eq_ok.mpr allowed)
        have fewer : Table.Increasing (s.info.subscriptions ++ rest) :=
          increasing.sublist (List.Sublist.append_left (List.sublist_cons_self _ _) _)
        obtain ⟨b', s', done, last, spared, taken⟩ := ih orderly ready present live fewer
        refine ⟨b', s', ?_, last, spared, ?_⟩
        · simp [done, Bind.bind, Except.bind, pure, Except.pure, refused, denied]
        · rw [taken, admitted_cons_refused denied]

theorem enroll_succeeds (opened : b.storage.closed = false) (id : String) (uid : SessionUid) :
    ∃ b', b.enroll id uid = .ok b' := by
  unfold enroll
  split
  · exact ⟨_, rfl⟩
  · obtain ⟨m, h, bucket⟩ := Storage.Memory.bucket_succeeds opened (Session.bucketName id)
    simp [bucket, Bind.bind, Except.bind, Except.mapError, pure, Except.pure]

theorem enroll_sessions {id : String} {uid : SessionUid} (done : b.enroll id uid = .ok b') :
    b'.sessions = b.sessions := by
  simp only [enroll] at done
  split at done
  · cases done
    rfl
  · simp only [bind_eq_ok] at done
    obtain ⟨_, _, _, emptied, done⟩ := done
    cases emptied
    cases done
    rfl

theorem restoreSession_of_parts {info : SessionInfo} {filled kept : Broker} {dropped : Nat}
    (restored : restoreSubscriptions b.nextUid (info.principal.bind b.access.lookup)
      info.subscriptions (({ b with nextUid := b.nextUid + 1 }).putSession
        (Session.new b.nextUid { info with subscriptions := [] } b.settings.mqtt)) =
        .ok (filled, dropped))
    (recorded : dropped = 0 ∧ kept = filled ∨ 0 < dropped ∧ filled.persist b.nextUid = .ok kept)
    (enrolled : kept.enroll info.id b.nextUid = .ok b') : b.restoreSession info = .ok b' := by
  rw [restoreSession_enroll]
  refine bind_eq_ok.mpr ⟨_, restored, ?_⟩
  dsimp only
  rcases recorded with ⟨rfl, rfl⟩ | ⟨lost, stored⟩
  · exact enrolled
  · rw [if_pos lost]
    exact bind_eq_ok.mpr ⟨kept, mapError_eq_ok.mpr stored, enrolled⟩

theorem recorded_anew (ready : b.Ready) {uid : SessionUid} {s : Session}
    (present : b.session? uid = some s) (dropped : Nat) :
    ∃ after, (dropped = 0 ∧ after = b ∨ 0 < dropped ∧ b.persist uid = .ok after) ∧
      (∃ entries, after = { b with storage := { b.storage with entries } }) ∧
      ∀ id, after.record? id =
        if id = s.info.id ∧ 0 < dropped then s.info.record? else b.record? id := by
  rcases Nat.eq_zero_or_pos dropped with none | lost
  · refine ⟨b, Or.inl ⟨none, rfl⟩, ⟨b.storage.entries, rfl⟩, fun id => ?_⟩
    rw [if_neg fun both => Nat.ne_of_gt both.2 none]
  · obtain ⟨after, persisted⟩ := persist_succeeds ready.opened uid
    obtain ⟨same, record⟩ := persist_records ready.opened present persisted
    refine ⟨after, Or.inr ⟨lost, persisted⟩, same, fun id => ?_⟩
    rw [record]
    simp only [lost, and_true]

theorem enroll_subscribed {id : String} {uid : SessionUid} {s : Session}
    (present : b.session? uid = some s) (subscribed : s.isSubscribed = true)
    (done : b.enroll id uid = .ok b') : b'.storage = b.storage := by
  simp only [enroll, present, Option.any_some, subscribed, if_true] at done
  cases done
  rfl

/-- A session comes back as it is recorded, but for subscriptions that it may not have any more. -/
theorem Orderly.restoreSession_admits (orderly : b.Orderly) (ready : b.Ready) {info : SessionInfo}
    (increasing : info.subscriptions.Increasing)
    (only : ∀ uid x, b.session? uid = some x → x.info.id ≠ info.id) {grants : Option Grants}
    (looked : grants = info.principal.bind b.access.lookup) :
    ∃ b' s, b.restoreSession info = .ok b' ∧ Returned b b' s ∧ s.uid = b.nextUid ∧
      s.info = { info with
        subscriptions := admitted b.settings grants info.subscriptions } ∧
      (∀ id, b'.record? id = if id = info.id ∧ 0 < refused b.settings grants info.subscriptions
        then s.info.record? else b.record? id) ∧
      (s.isSubscribed = true → b.storage.Spares b'.storage) := by
  subst looked
  have begun := Restoring.begin orderly only
  have added := startKeeps_ready.added info ready
  obtain ⟨filled, s, restored, present, spared, taken⟩ :=
    restoreSubscriptions_admits (info.principal.bind b.access.lookup) info.subscriptions
      begun.orderly added begun.present rfl increasing
  have own : s.info.id = info.id := by rw [taken]; rfl
  have before : ∀ id, filled.record? id = b.record? id := by
    intro id
    rw [record?, restoreSubscriptions_entries restored]
    rfl
  have filledReady := startKeeps_ready.restoreSubscriptions added restored
  obtain ⟨kept, stored, ⟨entries, same⟩, records⟩ := recorded_anew filledReady present
    (refused b.settings (info.principal.bind b.access.lookup) info.subscriptions)
  have there : kept.session? b.nextUid = some s := by
    rw [same]
    exact present
  have opened : kept.storage.closed = false := by
    rw [same]
    exact filledReady.opened
  obtain ⟨b', enrolled⟩ := enroll_succeeds opened info.id b.nextUid
  have done : b.restoreSession info = .ok b' := restoreSession_of_parts restored stored enrolled
  obtain ⟨t, _, uid, returned⟩ := restoreSession_returns orderly only done
  -- the session that has returned is the one that took up the subscriptions
  obtain rfl : t = s := by
    have found := returned.found b.nextUid
    rw [if_pos uid.symm, session?, enroll_sessions enrolled] at found
    exact (Option.some.inj (there.symm.trans found)).symm
  refine ⟨b', t, done, returned, uid, taken, fun id => ?_, fun subscribed => ?_⟩
  · rw [record?, enroll_entries enrolled, ← before id, ← own]
    exact records id
  · rw [enroll_subscribed there subscribed enrolled, same]
    exact spared.trans ⟨fun _ _ => id, fun _ _ => id⟩

theorem Orderly.restoreSession (orderly : b.Orderly) (ready : b.Ready) {info : SessionInfo}
    (tidy : info.Tidy) (recorded : b.record? info.id = info.record?)
    (only : ∀ uid x, b.session? uid = some x → x.info.id ≠ info.id) :
    ∃ b', b.restoreSession info = .ok b' ∧ b'.Orderly ∧ Touches info.id b b' ∧
      b'.Mirrored info.id ∧ (b'.find? info.id).isSome = true ∧
      ∀ w x, b'.session? w = some x → x.info.id = info.id ∨ b.session? w = some x := by
  obtain ⟨b', s, done, returned, uid, taken, records, _⟩ :=
    orderly.restoreSession_admits ready tidy.increasing only rfl
  have own : s.info.id = info.id := by rw [taken]
  have kept : admitted b.settings (info.principal.bind b.access.lookup) info.subscriptions = _ :=
    admitted_of_supported tidy.supported
  have find := returned.find? orderly uid
  have found : b'.info? info.id = some s.info := by
    rw [info?, find, if_pos own.symm, Option.map_some]
  refine ⟨b', done, returned.orderly, ⟨fun other apart => ?_, fun other apart => ?_, fun _ =>
    startKeeps_ready.restoreSession ready done⟩, ⟨fun now same => ?_, ?_⟩, ?_, fun w x here => ?_⟩
  · rw [info?, find, if_neg (own ▸ apart), info?]
  · rw [records, if_neg fun both => apart both.1]
  · cases found.symm.trans same
    rw [taken, kept]
    exact ⟨tidy.increasing.sublist List.filter_sublist,
      fun e member => tidy.supported e (List.mem_of_mem_filter member)⟩
  · rw [records, found, Option.bind_some]
    split
    · rfl
    · rename_i whole
      have none := Nat.eq_zero_of_not_pos fun lost => whole ⟨rfl, lost⟩
      rw [recorded, taken, kept, List.filter_eq_self.mpr (admits_of_refused none)]
  · rw [find, if_pos own.symm]
    rfl
  · rw [returned.found] at here
    split at here
    · cases here
      exact Or.inl own
    · exact Or.inr here

theorem Orderly.restoreAll {records : Table String Bytes} (orderly : b.Orderly) (ready : b.Ready)
    (distinct : records.keys.Nodup)
    (kept : ∀ key data, (key, data) ∈ records → ∃ info : SessionInfo, key = Session.key info.id ∧
      info.Tidy ∧ info.record? = some data ∧ b.record? info.id = some data)
    (apart : ∀ key ∈ records.keys, ∀ uid x, b.session? uid = some x → key ≠ Session.key x.info.id) :
    ∃ b', Broker.restoreAll records b = .ok b' ∧ b'.Ready ∧
      (∀ id, Session.key id ∈ records.keys → b'.Mirrored id ∧ (b'.info? id).isSome = true) ∧
      ∀ id, Session.key id ∉ records.keys →
        b'.info? id = b.info? id ∧ b'.record? id = b.record? id := by
  induction records generalizing b with
  | nil => exact ⟨b, rfl, ready, (fun _ member => nomatch member), fun _ _ => ⟨rfl, rfl⟩⟩
  | cons record rest ih =>
      obtain ⟨key, data⟩ := record
      obtain ⟨fresh, further⟩ := List.nodup_cons.mp distinct
      obtain ⟨info, rfl, tidy, due, held⟩ := kept key data (List.mem_cons_self ..)
      obtain ⟨durable, rfl⟩ := SessionInfo.record?_eq_some.mp due
      have decoded : (Codec.Json.load? Codec.Json.toSession?
          (Codec.Json.store (Codec.Json.ofSession info))).filter
            (fun info => !info.cleanSession) = some info := by
        rw [tidy.load?, Option.filter_some, durable]
        rfl
      have only : ∀ uid x, b.session? uid = some x → x.info.id ≠ info.id := by
        intro uid x present same
        exact apart _ (List.mem_cons_self ..) uid x present (same ▸ rfl)
      obtain ⟨next, restored, ordered, touches, mirrored, live, come⟩ :=
        orderly.restoreSession ready tidy (held.trans due.symm) only
      have others : ∀ id, Session.key id ∈ Table.keys rest → id ≠ info.id := by
        rintro id member rfl
        exact fresh member
      -- no other record has the key of this one, so the rest finds its own records as they were
      obtain ⟨b', done, ready', back, still⟩ := ih ordered (touches.ready ready) further
        (fun other data member => by
          obtain ⟨i, rfl, tidy, due, held⟩ := kept other data (List.mem_cons_of_mem _ member)
          have apart := others i.id (List.mem_map_of_mem member)
          exact ⟨i, rfl, tidy, due, (touches.records i.id apart).trans held⟩)
        (fun other member w x here => by
          rcases come w x here with own | old
          · rintro rfl
            exact others x.info.id member own
          · exact apart other (List.mem_cons_of_mem _ member) w x old)
      refine ⟨b', ?_, ready', fun id member => ?_, fun id absent => ?_⟩
      · simp only [Broker.restoreAll, decoded, restored]
        exact done
      · rcases List.mem_cons.mp member with same | later
        · obtain rfl := Session.key_injective same
          obtain ⟨infos, records⟩ := still info.id fresh
          refine ⟨mirrored.same infos records, ?_⟩
          rw [infos, info?, Option.isSome_map]
          exact live
        · exact back id later
      · have other : id ≠ info.id := by
          rintro rfl
          exact absent (List.mem_cons_self ..)
        obtain ⟨infos, records⟩ := still id fun member => absent (List.mem_cons_of_mem _ member)
        exact ⟨infos.trans (touches.infos id other), records.trans (touches.records id other)⟩

theorem start_upright {storage : Storage.Memory} (canonical : storage.Canonical)
    (settings : Settings) (now : Nat) (clock : Int64) :
    ∃ b, start settings storage now clock = .ok b ∧ b.Upright := by
  let empty := Broker.new settings storage now clock
  obtain ⟨retain, loaded⟩ : ∃ retain, empty.retain.load storage = .ok retain := by
    unfold RetainStore.load
    rw [Storage.Memory.entriesUnder_succeeds canonical.opened]
    exact ⟨_, rfl⟩
  have orderly : ({ empty with retain } : Broker).Orderly :=
    (Orderly.new settings canonical.named now clock).beside ⟨rfl, rfl, rfl, rfl, rfl, rfl⟩ rfl
  obtain ⟨b, restored, ready, back, still⟩ := orderly.restoreAll
    ⟨rfl, canonical.opened, rfl, rfl, rfl⟩ canonical.filed.recordKeys_nodup
    (fun key data member => by
      obtain ⟨id, rfl, held⟩ := canonical.filed.mem_sessionRecords.mp member
      obtain ⟨info, rfl, tidy, due⟩ := canonical.recorded id data held
      exact ⟨info, rfl, tidy, due, held⟩)
    (fun _ _ _ _ present => nomatch present)
  have begun : start settings storage now clock = .ok b := by
    have listed := Storage.Memory.entriesUnder_succeeds canonical.opened Session.keyStart
    refine bind_eq_ok.mpr ⟨retain, mapError_eq_ok.mpr loaded, ?_⟩
    exact bind_eq_ok.mpr ⟨storage.sessionRecords, mapError_eq_ok.mpr listed, restored⟩
  have restorable : storage.Restorable := ⟨canonical.named, canonical.filed⟩
  have resumed := start_resumed restorable begun
  refine ⟨b, begun, resumed.orderly, ready, start_filed restorable begun, fun id => ?_,
    fun id => ?_⟩
  · apply resumed.tenanted
    by_cases held : storage.entries.get? (Session.key id) = none
    · exact Or.inl (canonical.vacant id held)
    · have live := (back id (canonical.filed.mem_recordKeys.mpr held)).2
      rw [info?, Option.isSome_map] at live
      exact Or.inr live
  · by_cases held : storage.entries.get? (Session.key id) = none
    · obtain ⟨infos, kept⟩ := still id fun member => canonical.filed.mem_recordKeys.mp member held
      have vacant : ({ empty with retain } : Broker).Mirrored id := mirrored_vacant rfl held
      exact vacant.same infos kept
    · exact (back id (canonical.filed.mem_recordKeys.mpr held)).1

theorem Upright.restart (upright : b.Upright) (settings : Settings) :
    ∃ b', b.restart settings = (b', .ok ()) ∧ b'.Upright := by
  obtain ⟨canonical, silent⟩ := upright.lieDown
  obtain ⟨fresh, begun, ready⟩ :=
    start_upright canonical settings b.lieDown.now b.lieDown.clock
  simp only [Broker.restart, begun]
  refine ⟨_, rfl, ready.beside (.of_eq rfl rfl rfl rfl rfl rfl rfl rfl) rfl (fun _ => ?_) id id⟩
  rw [silent]
  rfl

end Broker

end MqttBroker
