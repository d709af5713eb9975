import MqttBroker.Proofs.Reopening

/-!
What a start makes of each record: which sessions come back, with which subscriptions, and what is
left of them in storage.
-/

namespace MqttBroker

theorem Codec.Json.toSubscriptions?_increasing {v : JsonValue} {t : Table String QoS}
    (read : toSubscriptions? v = some t) : t.Increasing := by
  unfold toSubscriptions? at read
  split at read
  · obtain ⟨entries, _, same⟩ := Option.bind_eq_some_iff.mp read
    cases same
    exact Table.increasing_ofList entries
  · cases read

theorem Codec.Json.toSession?_increasing {v : JsonValue} {info : SessionInfo}
    (read : toSession? v = some info) : info.subscriptions.Increasing := by
  simp only [toSession?, Option.bind_eq_bind, Option.bind_eq_some_iff] at read
  obtain ⟨fields, _, read⟩ := read
  split at read
  · simp only [Option.bind_eq_some_iff] at read
    obtain ⟨_, _, _, _, t, held, _, _, _, _, same⟩ := read
    cases same
    split at held
    · cases held
      exact List.Pairwise.nil
    · exact toSubscriptions?_increasing held
  · cases read

namespace Storage.Memory

def durable? (m : Memory) (id : String) : Option SessionInfo :=
  ((m.entries.get? (Session.key id)).bind (Codec.Json.load? Codec.Json.toSession?)).filter
    fun info => !info.cleanSession

theorem durable?_increasing {m : Memory} {id : String} {info : SessionInfo}
    (durable : m.durable? id = some info) : info.subscriptions.Increasing := by
  obtain ⟨held, _⟩ := Option.filter_eq_some_iff.mp durable
  obtain ⟨data, _, loaded⟩ := Option.bind_eq_some_iff.mp held
  simp only [Codec.Json.load?, Option.bind_eq_bind, Option.bind_eq_some_iff] at loaded
  obtain ⟨_, _, _, _, read⟩ := loaded
  exact Codec.Json.toSession?_increasing read

theorem durable?_vacant {m : Memory} {id : String}
    (vacant : m.entries.get? (Session.key id) = none) : m.durable? id = none := by
  rw [durable?, vacant]
  rfl

theorem durable?_recorded {m : Memory} {id : String} {info : SessionInfo} (tidy : info.Tidy)
    {data : Bytes} (recorded : info.record? = some data)
    (held : m.entries.get? (Session.key id) = some data) : m.durable? id = some info := by
  obtain ⟨durable, rfl⟩ := SessionInfo.record?_eq_some.mp recorded
  rw [durable?, held, Option.bind_some, tidy.load?, Option.filter_some, durable]
  rfl

theorem durable?_id {m : Memory} (filed : Filed m.entries) {id : String} {info : SessionInfo}
    (durable : m.durable? id = some info) : info.id = id := by
  obtain ⟨held, _⟩ := Option.filter_eq_some_iff.mp durable
  obtain ⟨data, entry, loaded⟩ := Option.bind_eq_some_iff.mp held
  have own := filed.own _ data (Table.mem_of_get? entry) (Session.startsWith_keyStart.mpr ⟨id, rfl⟩)
    info loaded
  exact (Session.key_injective own).symm

end Storage.Memory

namespace Broker

variable {b b' b'' : Broker}

/-- Nothing of the client id has changed: neither its session nor its record nor its bucket. -/
structure Apart (id : String) (b b' : Broker) : Prop where
  find : b'.find? id = b.find? id
  record : b'.record? id = b.record? id
  name : b'.storage.names.get? (Session.bucketName id) =
    b.storage.names.get? (Session.bucketName id)
  bucket : b'.storage.named? (Session.bucketName id) = b.storage.named? (Session.bucketName id)

theorem Apart.refl (id : String) (b : Broker) : Apart id b b := ⟨rfl, rfl, rfl, rfl⟩

theorem Apart.trans {id : String} (first : Apart id b b') (second : Apart id b' b'') :
    Apart id b b'' :=
  ⟨second.find.trans first.find, second.record.trans first.record, second.name.trans first.name,
    second.bucket.trans first.bucket⟩

/-- A session has come back from its record, with the subscriptions that are admitted. It is
recorded again if that are fewer. The bucket is gone if they are none, and untouched otherwise. -/
structure Readmitted (b b' : Broker) (info : SessionInfo) (s : Session) : Prop where
  live : b'.find? info.id = some s
  taken : s.info = { info with
    subscriptions := admitted b.settings (info.principal.bind b.access.lookup) info.subscriptions }
  record : b'.record? info.id =
    if 0 < refused b.settings (info.principal.bind b.access.lookup) info.subscriptions
    then s.info.record? else b.record? info.id
  emptied : s.info.subscriptions = [] →
    b'.storage.names.get? (Session.bucketName info.id) = none
  spared : s.info.subscriptions ≠ [] → ∀ bucket,
    b.storage.named? (Session.bucketName info.id) = some bucket →
    b'.storage.named? (Session.bucketName info.id) = some bucket

structure Readmits (id : String) (b b' : Broker) : Prop where
  restored : ∀ info, b.storage.durable? id = some info → ∃ s, Readmitted b b' info s
  deleted : b.storage.durable? id = none → b'.find? id = none ∧ b'.record? id = none

structure Processed (id : String) (b b' : Broker) : Prop where
  orderly : b'.Orderly
  ready : b'.Ready
  settings : b'.settings = b.settings
  access : b'.access = b.access
  readmits : Readmits id b b'
  apart : ∀ other, other ≠ id → Apart other b b'

theorem Readmitted.tidy {info : SessionInfo} {s : Session} (readmitted : Readmitted b b' info s)
    (increasing : info.subscriptions.Increasing) : s.info.Tidy := by
  rw [readmitted.taken]
  constructor
  · exact admitted_increasing _ _ increasing
  · intro e member
    obtain ⟨_, _, rfl⟩ := List.mem_map.mp member
    exact QoS.lower_supported _

theorem startKeeps_given (settings : Settings) (retain : RetainStore) :
    StartKeeps fun b => b.settings = settings ∧ b.retain = retain where
  added _ same := same
  subscribed same done := by
    obtain ⟨_, _, _, _, _, _, _, _, _, _, _, _, rfl⟩ := subscribe_changes done
    exact same
  recorded same done := by
    rcases persist_changes done with rfl | ⟨_, _, _, _, rfl⟩
    · exact same
    · exact same
  enrolled same done := by
    simp only [enroll] at done
    split at done
    · cases done
      exact same
    · simp only [bind_eq_ok] at done
      obtain ⟨_, _, _, emptied, done⟩ := done
      cases emptied
      cases done
      exact same
  deleted same _ := same

theorem durable?_congr {id : String} (record : b'.record? id = b.record? id) :
    b'.storage.durable? id = b.storage.durable? id :=
  congrArg (fun data => Option.filter _ (Option.bind data _)) record

theorem Readmits.later {id : String} (readmits : Readmits id b b') (apart : Apart id b' b'')
    (own : ∀ info, b.storage.durable? id = some info → info.id = id) : Readmits id b b'' where
  restored info durable := by
    obtain ⟨s, readmitted⟩ := readmits.restored info durable
    obtain rfl := own info durable
    refine ⟨s, apart.find.trans readmitted.live, readmitted.taken,
      apart.record.trans readmitted.record, ?_, ?_⟩
    · intro none
      exact apart.name.trans (readmitted.emptied none)
    · intro some bucket held
      exact apart.bucket.trans (readmitted.spared some bucket held)
  deleted none := by
    obtain ⟨absent, unrecorded⟩ := readmits.deleted none
    exact ⟨apart.find.trans absent, apart.record.trans unrecorded⟩

theorem Readmits.earlier {id : String} (apart : Apart id b b') (readmits : Readmits id b' b'')
    (settings : b'.settings = b.settings) (access : b'.access = b.access)
    (own : ∀ info, b.storage.durable? id = some info → info.id = id) : Readmits id b b'' where
  restored info durable := by
    obtain ⟨s, readmitted⟩ := readmits.restored info ((durable?_congr apart.record).trans durable)
    obtain rfl := own info durable
    have taken := readmitted.taken
    have record := readmitted.record
    rw [settings, access] at taken record
    refine ⟨s, readmitted.live, taken, apart.record ▸ record, readmitted.emptied, ?_⟩
    intro some bucket held
    exact readmitted.spared some bucket (apart.bucket.trans held)
  deleted none := readmits.deleted ((durable?_congr apart.record).trans none)

theorem Orderly.processes_restored (orderly : b.Orderly) (ready : b.Ready) {info : SessionInfo}
    (durable : b.storage.durable? info.id = some info)
    (only : ∀ uid x, b.session? uid = some x → x.info.id ≠ info.id) :
    ∃ b', b.restoreSession info = .ok b' ∧ Processed info.id b b' ∧
      ∀ w x, b'.session? w = some x → x.info.id = info.id ∨ b.session? w = some x := by
  obtain ⟨b', s, done, returned, uid, taken, records, spared⟩ :=
    orderly.restoreSession_admits ready (Storage.Memory.durable?_increasing durable) only rfl
  have own : s.info.id = info.id := by rw [taken]
  have find := returned.find? orderly uid
  have elsewhere := own ▸ returned.elsewhere
  have subscribed := returned.orderly.supplied s.uid s (by rw [returned.found, if_pos rfl])
    (returned.orderly.find?_some (by rw [find, if_pos rfl])).2.2.1
  refine ⟨b', done, ⟨returned.orderly, startKeeps_ready.restoreSession ready done,
    ((startKeeps_given b.settings b.retain).restoreSession ⟨rfl, rfl⟩ done).1, returned.access,
    ⟨?_, ?_⟩, ?_⟩, ?_⟩
  · intro x same
    cases durable.symm.trans same
    refine ⟨s, ?_, taken, ?_, ?_, ?_⟩
    · rw [find, if_pos own.symm]
    · rw [records]
      simp only [true_and]
    · intro none
      rw [Session.isSubscribed, none] at subscribed
      rcases returned.housed with queues | vacant
      · rw [queues] at subscribed
        cases subscribed
      · exact own ▸ vacant
    · intro some bucket held
      refine (spared ?_).named? held
      simpa [Session.isSubscribed] using some
  · intro none
    cases durable.symm.trans none
  · intro other apart
    have names := fun same => apart (Session.bucketName_injective same)
    refine ⟨?_, ?_, elsewhere.names _ names, elsewhere.named? orderly.named names⟩
    · rw [find, if_neg (own ▸ apart)]
    · rw [records, if_neg fun both => apart both.1]
  · intro w x here
    rw [returned.found] at here
    split at here
    · cases here
      exact Or.inl own
    · exact Or.inr here

theorem Orderly.processes_deleted (orderly : b.Orderly) (ready : b.Ready) {id : String}
    (unreadable : b.storage.durable? id = none) (absent : b.find? id = none) :
    Processed id b { b with storage :=
      { b.storage with entries := b.storage.entries.erase (Session.key id) } } where
  orderly := orderly.beside ⟨rfl, rfl, rfl, rfl, rfl, rfl⟩ rfl
  ready := ready.same rfl rfl rfl rfl rfl
  settings := rfl
  access := rfl
  readmits := by
    refine ⟨fun info durable => ?_, fun _ => ⟨absent, ?_⟩⟩
    · cases unreadable.symm.trans durable
    · exact (Table.get?_erase ..).trans (if_pos rfl)
  apart other apart := by
    refine ⟨rfl, ?_, rfl, rfl⟩
    exact (Table.get?_erase ..).trans (if_neg fun same => apart (Session.key_injective same))

theorem Orderly.find?_isSome (orderly : b.Orderly) {id : String} :
    (b.find? id).isSome = (b.registry.get? id).isSome := by
  cases entry : b.registry.get? id with
  | none =>
      rw [find?, entry, Option.bind_none]
      rfl
  | some uid =>
      obtain ⟨s, present, _⟩ := orderly.live id uid entry
      rw [find?_of_entry entry present, Option.isSome_some, Option.isSome_some]

theorem Orderly.processes (orderly : b.Orderly) (ready : b.Ready) {id : String} {data : Bytes}
    (held : b.record? id = some data)
    (named : ∀ info, b.storage.durable? id = some info → info.id = id)
    (only : ∀ uid x, b.session? uid = some x → x.info.id ≠ id) :
    ∃ next, Processed id b next ∧
      (∀ rest, Broker.restoreAll ((Session.key id, data) :: rest) b = Broker.restoreAll rest next) ∧
      ∀ w x, next.session? w = some x → x.info.id = id ∨ b.session? w = some x := by
  have durable : b.storage.durable? id = (Codec.Json.load? Codec.Json.toSession? data).filter
      fun info => !info.cleanSession :=
    congrArg (fun data => Option.filter _ (Option.bind data _)) held
  cases decoded : (Codec.Json.load? Codec.Json.toSession? data).filter
      fun info => !info.cleanSession with
  | some info =>
      obtain rfl := named info (durable.trans decoded)
      obtain ⟨next, restored, processed, come⟩ :=
        orderly.processes_restored ready (durable.trans decoded) only
      refine ⟨next, processed, ?_, come⟩
      intro rest
      simp only [Broker.restoreAll, decoded, restored]
      rfl
  | none =>
      have absent : b.find? id = none := by
        cases found : b.find? id with
        | none => rfl
        | some x =>
            obtain ⟨present, own, _⟩ := orderly.find?_some found
            exact absurd own (only x.uid x present)
      refine ⟨_, orderly.processes_deleted ready (durable.trans decoded) absent, ?_,
        fun w x present => Or.inr present⟩
      intro rest
      simp only [Broker.restoreAll, decoded, Storage.Memory.deleteEntry_succeeds ready.opened]
      rfl

/-- The records are done with one after the other. None concerns the client id of another. -/
theorem Orderly.readmitsAll {records : Table String Bytes} (orderly : b.Orderly) (ready : b.Ready)
    (distinct : records.keys.Nodup)
    (filed : ∀ key data, (key, data) ∈ records → ∃ id, key = Session.key id ∧
      b.record? id = some data ∧ ∀ info, b.storage.durable? id = some info → info.id = id)
    (apart : ∀ key ∈ records.keys, ∀ uid x, b.session? uid = some x → key ≠ Session.key x.info.id) :
    ∃ b', Broker.restoreAll records b = .ok b' ∧ b'.Orderly ∧
      (∀ id, Session.key id ∈ records.keys → Readmits id b b') ∧
      ∀ id, Session.key id ∉ records.keys → Apart id b b' := by
  induction records generalizing b with
  | nil => exact ⟨b, rfl, orderly, (fun _ member => nomatch member), fun id _ => .refl id b⟩
  | cons record rest ih =>
      obtain ⟨key, data⟩ := record
      obtain ⟨fresh, further⟩ := List.nodup_cons.mp distinct
      obtain ⟨id, rfl, held, named⟩ := filed key data (List.mem_cons_self ..)
      have others : ∀ other, Session.key other ∈ Table.keys rest → other ≠ id := by
        rintro other member rfl
        exact fresh member
      obtain ⟨next, processed, done, come⟩ := orderly.processes ready held named (by
        intro uid x present same
        exact apart _ (List.mem_cons_self ..) uid x present (same ▸ rfl))
      have filed' : ∀ key data, (key, data) ∈ rest → ∃ id, key = Session.key id ∧
          next.record? id = some data ∧
          ∀ info, next.storage.durable? id = some info → info.id = id := by
        intro key data member
        obtain ⟨other, rfl, held, named⟩ := filed key data (List.mem_cons_of_mem _ member)
        have same := (processed.apart other (others other (List.mem_map_of_mem member))).record
        refine ⟨other, rfl, same.trans held, fun info durable => ?_⟩
        exact named info ((durable?_congr same).symm.trans durable)
      have apart' : ∀ key ∈ Table.keys rest, ∀ uid x, next.session? uid = some x →
          key ≠ Session.key x.info.id := by
        intro key member uid x present
        rcases come uid x present with rfl | old
        · rintro rfl
          exact fresh member
        · exact apart key (List.mem_cons_of_mem _ member) uid x old
      obtain ⟨b', restored, orderly', readmits, spares⟩ :=
        ih processed.orderly processed.ready further filed' apart'
      refine ⟨b', (done rest).trans restored, orderly', ?_, ?_⟩
      · intro other member
        rcases List.mem_cons.mp member with same | later
        · obtain rfl := Session.key_injective same
          exact processed.readmits.later (spares _ fresh) named
        · obtain ⟨⟨_, data⟩, entry, rfl⟩ := List.mem_map.mp later
          obtain ⟨other', same, _, named'⟩ := filed _ _ (List.mem_cons_of_mem _ entry)
          obtain rfl := Session.key_injective same
          exact (readmits _ later).earlier (processed.apart _ (others _ later)) processed.settings
            processed.access named'
      · intro other absent
        have other' : other ≠ id := by
          rintro rfl
          exact absent (List.mem_cons_self ..)
        exact (processed.apart other other').trans
          (spares other fun member => absent (List.mem_cons_of_mem _ member))

theorem start_readmitted {storage : Storage.Memory} (restorable : storage.Restorable)
    (opened : storage.closed = false) (settings : Settings) (now : Nat) (clock : Int64) :
    ∃ b, start settings storage now clock = .ok b ∧ b.Orderly ∧
      ∀ id, Readmits id (Broker.new settings storage now clock) b := by
  obtain ⟨retain, loaded⟩ :
      ∃ retain, (Broker.new settings storage now clock).retain.load storage = .ok retain := by
    unfold RetainStore.load
    rw [Storage.Memory.entriesUnder_succeeds opened]
    exact ⟨_, rfl⟩
  let empty : Broker := { Broker.new settings storage now clock with retain }
  have own : ∀ id info, storage.durable? id = some info → info.id = id :=
    fun _ _ => Storage.Memory.durable?_id restorable.filed
  have orderly : empty.Orderly :=
    (Orderly.new settings restorable.named now clock).beside ⟨rfl, rfl, rfl, rfl, rfl, rfl⟩ rfl
  have filed : ∀ key data, (key, data) ∈ storage.sessionRecords → ∃ id, key = Session.key id ∧
      empty.record? id = some data ∧ ∀ info, storage.durable? id = some info → info.id = id := by
    intro key data member
    obtain ⟨id, rfl, held⟩ := restorable.filed.mem_sessionRecords.mp member
    exact ⟨id, rfl, held, own id⟩
  obtain ⟨b, restored, orderly', readmits, spares⟩ :=
    orderly.readmitsAll ⟨rfl, opened, rfl, rfl, rfl⟩ restorable.filed.recordKeys_nodup filed
      fun _ _ _ _ present => nomatch present
  refine ⟨b, ?_, orderly', fun id => ?_⟩
  · have listed := Storage.Memory.entriesUnder_succeeds opened Session.keyStart
    refine bind_eq_ok.mpr ⟨retain, mapError_eq_ok.mpr loaded, ?_⟩
    exact bind_eq_ok.mpr ⟨storage.sessionRecords, mapError_eq_ok.mpr listed, restored⟩
  · by_cases held : storage.entries.get? (Session.key id) = none
    · have apart := spares id fun member => restorable.filed.mem_recordKeys.mp member held
      refine ⟨fun info durable => ?_, fun _ => ⟨apart.find, apart.record.trans held⟩⟩
      cases durable.symm.trans (Storage.Memory.durable?_vacant held)
    · have same : Apart id (Broker.new settings storage now clock) empty := ⟨rfl, rfl, rfl, rfl⟩
      have readmits := readmits id (restorable.filed.mem_recordKeys.mpr held)
      exact readmits.earlier same rfl rfl (own id)

/-- A start restores the sessions of the records that can be read and are not of clean sessions, and
no others; the other records are deleted. A session comes back as it is recorded, but with the
subscriptions that are well formed under the settings and granted to its principal, as they are
granted now. If some are lost it is recorded again. Its bucket is gone if none is left, and is
otherwise as it was. -/
theorem start_readmits {settings : Settings} {storage : Storage.Memory} {now : Nat} {clock : Int64}
    (restorable : storage.Restorable) (done : start settings storage now clock = .ok b) :
    let access : AccessControl :=
      { acl := settings.acl, namespaces := .ofList settings.mqtt.systemTopicPrefixes }
    (∀ id, id ∈ b.registry.keys ↔ (storage.durable? id).isSome = true) ∧
    (∀ id, storage.durable? id = none → b.storage.entries.get? (Session.key id) = none) ∧
    ∀ id info, storage.durable? id = some info →
      let grants := info.principal.bind access.lookup
      ∃ s, b.find? id = some s ∧
        s.info = { info with subscriptions := admitted settings grants info.subscriptions } ∧
        (refused settings grants info.subscriptions = 0 →
          b.storage.entries.get? (Session.key id) = storage.entries.get? (Session.key id)) ∧
        (0 < refused settings grants info.subscriptions →
          b.storage.durable? id = some s.info ∧ b.storage.entries.get? (Session.key id) =
            some (Codec.Json.store (Codec.Json.ofSession s.info))) ∧
        (s.info.subscriptions = [] →
          b.storage.names.get? (Session.bucketName id) = none) ∧
        (s.info.subscriptions ≠ [] → ∀ bucket,
          storage.named? (Session.bucketName id) = some bucket →
          b.storage.named? (Session.bucketName id) = some bucket) := by
  intro access
  have opened : storage.closed = false := by
    simp only [start, bind_eq_ok, mapError_eq_ok] at done
    obtain ⟨_, _, _, listed, _⟩ := done
    exact Storage.Memory.entriesUnder_ok listed
  obtain ⟨after, restored, orderly, outcome⟩ :=
    start_readmitted restorable opened settings now clock
  cases done.symm.trans restored
  refine ⟨?_, fun id none => ((outcome id).deleted none).2, ?_⟩
  · intro id
    rw [Table.mem_keys, Table.contains, ← orderly.find?_isSome]
    cases durable : storage.durable? id with
    | none =>
        rw [((outcome id).deleted durable).1]
        rfl
    | some info =>
        obtain ⟨s, readmitted⟩ := (outcome id).restored info durable
        obtain rfl := Storage.Memory.durable?_id restorable.filed durable
        rw [readmitted.live]
        rfl
  · intro id info durable
    obtain ⟨s, readmitted⟩ := (outcome id).restored info durable
    obtain rfl := Storage.Memory.durable?_id restorable.filed durable
    have record := readmitted.record
    refine ⟨s, readmitted.live, readmitted.taken, ?_, ?_, readmitted.emptied, readmitted.spared⟩
    · intro none
      exact record.trans (if_neg (Nat.not_lt.mpr (Nat.le_of_eq none)))
    · intro lost
      have stays : info.cleanSession = false := by
        simpa using (Option.filter_eq_some_iff.mp durable).2
      have recorded : s.info.record? = some (Codec.Json.store (Codec.Json.ofSession s.info)) := by
        rw [SessionInfo.record?_eq_some, readmitted.taken]
        exact ⟨stays, rfl⟩
      have held := (record.trans (if_pos lost)).trans recorded
      have tidy := readmitted.tidy (Storage.Memory.durable?_increasing durable)
      exact ⟨Storage.Memory.durable?_recorded tidy recorded held, held⟩

def oneTopicOpen : Settings where
  acl := { allowAnonymous := true, anonymous := { subscribe := ["a"] } }

def twoTopics : SessionInfo where
  id := "c"
  cleanSession := false
  subscriptions := [("a", .atMostOnce), ("b", .atLeastOnce)]
  principal := some .anonymous

def twoTopicsRecorded : Storage.Memory where
  names := [("queue/c", 0)]
  buckets := [(0, { name := "queue/c", next := 2, records :=
    [{ offset := 1, time := 0, data := [7] }] })]
  opened := 1
  entries := [(Session.key "c", Codec.Json.store (Codec.Json.ofSession twoTopics))]

theorem twoTopicsRecorded_restorable : twoTopicsRecorded.Restorable := by
  refine ⟨⟨fun name h held => ?_, fun h b found => ?_⟩, Storage.filed_empty.record twoTopics⟩
  · have only : "queue/c" = name ∧ 0 = h := by
      simpa [twoTopicsRecorded, Table.get?, List.find?_singleton] using held
    obtain ⟨rfl, rfl⟩ := only
    exact ⟨_, rfl, rfl⟩
  · have only : 0 = h := by
      have first := found
      simp [twoTopicsRecorded, Storage.Memory.find?, Table.get?, List.find?_singleton] at first
      exact first.1
    exact only ▸ Nat.zero_lt_one

theorem twoTopicsRecorded_readmitted : ∃ b s,
    start oneTopicOpen twoTopicsRecorded 0 0 = .ok b ∧ b.find? "c" = some s ∧
      s.info = { twoTopics with subscriptions := [("a", .atMostOnce)] } ∧
      b.storage.durable? "c" = some s.info ∧
      (b.storage.named? "queue/c").map Bucket.offsets = some [1] := by
  have tidy : twoTopics.Tidy := by
    constructor
    · unfold Table.Increasing
      decide
    · decide
  have durable : twoTopicsRecorded.durable? "c" = some twoTopics :=
    Storage.Memory.durable?_recorded tidy (SessionInfo.record?_eq_some.mpr ⟨rfl, rfl⟩)
      (by simp [twoTopicsRecorded, Table.get?])
  obtain ⟨b, done, _⟩ := start_readmitted twoTopicsRecorded_restorable rfl oneTopicOpen 0 0
  obtain ⟨_, _, readmits⟩ := start_readmits twoTopicsRecorded_restorable done
  obtain ⟨s, live, taken, _, again, _, spared⟩ := readmits "c" twoTopics durable
  have left : s.info = { twoTopics with subscriptions := [("a", .atMostOnce)] } := by
    rw [taken]
    rfl
  refine ⟨b, s, done, live, left, (again (by decide)).1, ?_⟩
  have bucket := spared (by rw [left]; decide) _ rfl
  rw [show Session.bucketName "c" = "queue/c" from rfl] at bucket
  rw [bucket]
  decide

end Broker

end MqttBroker
