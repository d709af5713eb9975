import MqttBroker.Proofs.OpenStorage
import MqttBroker.Proofs.Tenancy

/-!
What storage keeps of the sessions. The record of a session that is not clean says what the session
is; a clean session has none. What is done to the session of one client id changes nothing that is
kept of the others.
-/

namespace MqttBroker

theorem QoS.lower_supported (q : QoS) : q.lower .atLeastOnce ≠ .exactlyOnce := by
  cases q <;> decide

theorem QoS.lower_of_supported {q : QoS} (supported : q ≠ .exactlyOnce) :
    q.lower .atLeastOnce = q := by
  cases q with
  | exactlyOnce => exact absurd rfl supported
  | _ => rfl

namespace SessionInfo

structure Tidy (info : SessionInfo) : Prop where
  increasing : info.subscriptions.Increasing
  supported : ∀ e ∈ info.subscriptions, e.2 ≠ .exactlyOnce

def record? (info : SessionInfo) : Option Bytes :=
  if info.cleanSession then none else some (Codec.Json.store (Codec.Json.ofSession info))

variable {info info' : SessionInfo}

theorem tidy_unsubscribed (none : info.subscriptions = []) : info.Tidy := by
  constructor
  · rw [none]
    exact List.Pairwise.nil
  · rw [none]
    exact fun _ member => nomatch member

theorem Tidy.same (tidy : info.Tidy) (subscriptions : info'.subscriptions = info.subscriptions) :
    info'.Tidy :=
  ⟨subscriptions ▸ tidy.increasing, subscriptions ▸ tidy.supported⟩

theorem Tidy.insert (tidy : info.Tidy) {filter : String} {qos : QoS}
    (supported : qos ≠ .exactlyOnce)
    (subscriptions : info'.subscriptions = info.subscriptions.insert filter qos) : info'.Tidy := by
  constructor
  · rw [subscriptions]
    exact tidy.increasing.insert filter qos
  · rw [subscriptions]
    intro e member
    rcases Table.mem_insert member with rfl | old
    · exact supported
    · exact tidy.supported e old

theorem Tidy.erase (tidy : info.Tidy) {filter : String}
    (subscriptions : info'.subscriptions = info.subscriptions.erase filter) : info'.Tidy := by
  constructor
  · rw [subscriptions]
    exact tidy.increasing.erase filter
  · rw [subscriptions]
    exact fun e member => tidy.supported e (List.mem_of_mem_filter member)

theorem Tidy.load? (tidy : info.Tidy) : Codec.Json.load? Codec.Json.toSession?
    (Codec.Json.store (Codec.Json.ofSession info)) = some info := by
  rw [Codec.Json.load?_ofSession, tidy.increasing.ofList]

theorem record?_eq_some {data : Bytes} : info.record? = some data ↔
    info.cleanSession = false ∧ data = Codec.Json.store (Codec.Json.ofSession info) := by
  unfold record?
  cases info.cleanSession <;> simp [eq_comm]

end SessionInfo

namespace Session

theorem key_injective {id other : String} (same : key id = key other) : id = other := by
  have lists := congrArg String.toList same
  simp only [key, String.toList_append] at lists
  exact String.toList_inj.mp (List.append_cancel_left lists)

theorem startsWith_keyStart {key : String} :
    Text.startsWith keyStart key = true ↔ ∃ id, key = Session.key id := by
  unfold Text.startsWith
  rw [List.isPrefixOf_iff_prefix]
  constructor
  · rintro ⟨rest, same⟩
    refine ⟨String.ofList rest, String.toList_inj.mp ?_⟩
    rw [Session.key, String.toList_append, String.toList_ofList, same]
  · rintro ⟨id, rfl⟩
    rw [Session.key, String.toList_append]
    exact List.prefix_append ..

end Session

namespace Broker

def info? (b : Broker) (id : String) : Option SessionInfo := (b.find? id).map Session.info

def record? (b : Broker) (id : String) : Option Bytes := b.storage.entries.get? (Session.key id)

structure Ready (b : Broker) : Prop where
  running : b.shuttingDown = false
  opened : b.storage.closed = false
  peers : b.peers = []
  served : b.served = []
  callers : b.callers = []

structure Mirrored (b : Broker) (id : String) : Prop where
  tidy : ∀ info, b.info? id = some info → info.Tidy
  recorded : b.record? id = (b.info? id).bind SessionInfo.record?

/-- No session was changed but that of the client id, and no record but its own. -/
structure Touches (id : String) (b b' : Broker) : Prop where
  infos : ∀ other, other ≠ id → b'.info? other = b.info? other
  records : ∀ other, other ≠ id → b'.record? other = b.record? other
  ready : b.Ready → b'.Ready

structure Undisturbed (b b' : Broker) : Prop where
  infos : ∀ id, b'.info? id = b.info? id
  records : ∀ id, b'.record? id = b.record? id
  ready : b.Ready → b'.Ready

variable {b b' b'' : Broker}

theorem Ready.same (ready : b.Ready) (shuttingDown : b'.shuttingDown = b.shuttingDown)
    (closed : b'.storage.closed = b.storage.closed) (peers : b'.peers = b.peers)
    (served : b'.served = b.served) (callers : b'.callers = b.callers) : b'.Ready :=
  ⟨shuttingDown.trans ready.running, closed.trans ready.opened, peers.trans ready.peers,
    served.trans ready.served, callers.trans ready.callers⟩

theorem Touches.refl (id : String) (b : Broker) : Touches id b b :=
  ⟨fun _ _ => rfl, fun _ _ => rfl, fun ready => ready⟩

theorem Touches.trans {id : String} (first : Touches id b b') (second : Touches id b' b'') :
    Touches id b b'' where
  infos other apart := (second.infos other apart).trans (first.infos other apart)
  records other apart := (second.records other apart).trans (first.records other apart)
  ready before := second.ready (first.ready before)

theorem Undisturbed.refl (b : Broker) : Undisturbed b b :=
  ⟨fun _ => rfl, fun _ => rfl, fun ready => ready⟩

theorem Undisturbed.trans (first : Undisturbed b b') (second : Undisturbed b' b'') :
    Undisturbed b b'' where
  infos id := (second.infos id).trans (first.infos id)
  records id := (second.records id).trans (first.records id)
  ready before := second.ready (first.ready before)

theorem Undisturbed.touches (undisturbed : Undisturbed b b') (id : String) : Touches id b b' :=
  ⟨fun other _ => undisturbed.infos other, fun other _ => undisturbed.records other,
    undisturbed.ready⟩

theorem Mirrored.same {id : String} (mirrored : b.Mirrored id) (infos : b'.info? id = b.info? id)
    (records : b'.record? id = b.record? id) : b'.Mirrored id := by
  constructor
  · rw [infos]
    exact mirrored.tidy
  · rw [records, infos]
    exact mirrored.recorded

theorem mirrored_vacant {id : String} (absent : b.find? id = none) (none : b.record? id = none) :
    b.Mirrored id := by
  have vacant : b.info? id = Option.none := by rw [info?, absent, Option.map_none]
  constructor
  · rw [vacant]
    exact fun _ present => nomatch present
  · rw [vacant, none]
    rfl

/-! What is done to one session -/

theorem find?_of_entry {id : String} {uid : SessionUid} {s : Session}
    (entry : b.registry.get? id = some uid) (present : b.session? uid = some s) :
    b.find? id = some s := by
  rw [find?, entry, Option.bind_some, present]

theorem Orderly.touches (orderly : b.Orderly) {id : String} (uid : SessionUid)
    (own : ∀ s, b.session? uid = some s → s.info.id = id)
    (sessions : ∀ w, w ≠ uid → b'.session? w = b.session? w)
    (registry : ∀ other, other ≠ id → b'.registry.get? other = b.registry.get? other)
    (records : ∀ other, other ≠ id → b'.record? other = b.record? other)
    (ready : b.Ready → b'.Ready) : Touches id b b' := by
  refine ⟨fun other apart => ?_, records, ready⟩
  simp only [info?, find?, registry other apart]
  cases entry : b.registry.get? other with
  | none => rfl
  | some w =>
      -- the session that is registered under another id is not the one that has changed
      obtain ⟨x, present, theirs, _⟩ := orderly.live other w entry
      rw [Option.bind_some, Option.bind_some, sessions]
      rintro rfl
      exact apart (theirs.symm.trans (own x present))

theorem undisturbed_put {s s' : Session} (present : b.session? s.uid = some s)
    (found : ∀ w, b'.session? w = if w = s.uid then some s' else b.session? w)
    (info : s'.info = s.info) (registry : b'.registry = b.registry)
    (entries : b'.storage.entries = b.storage.entries) (ready : b.Ready → b'.Ready) :
    Undisturbed b b' where
  infos id := by
    simp only [info?, find?, registry]
    cases b.registry.get? id with
    | none => rfl
    | some w =>
        simp only [Option.bind_some, found]
        by_cases own : w = s.uid
        · rw [if_pos own, own, present, Option.map_some, Option.map_some, info]
        · rw [if_neg own]
  records id := by rw [record?, entries, record?]
  ready := ready

theorem undisturbed_of_eq (sessions : b'.sessions = b.sessions)
    (registry : b'.registry = b.registry) (entries : b'.storage.entries = b.storage.entries)
    (ready : b.Ready → b'.Ready) : Undisturbed b b' where
  infos id := by
    unfold info? find? session?
    rw [registry, sessions]
  records id := by rw [record?, entries, record?]
  ready := ready

theorem Orderly.touches_live (orderly : b.Orderly) {s s' : Session}
    (live : b.find? s.info.id = some s)
    (found : ∀ w, b'.session? w = if w = s.uid then some s' else b.session? w)
    (registry : b'.registry = b.registry) (entries : b'.storage.entries = b.storage.entries)
    (ready : b.Ready → b'.Ready) :
    Touches s.info.id b b' ∧ b'.find? s.info.id = some s' := by
  obtain ⟨present, _, _, entry⟩ := orderly.find?_some live
  constructor
  · refine orderly.touches s.uid ?_ (fun w other => ?_) (fun other _ => by rw [registry])
      (fun other _ => by rw [record?, entries, record?]) ready
    · intro x here
      rw [present] at here
      cases here
      rfl
    · rw [found, if_neg other]
  · exact find?_of_entry (registry ▸ entry) (by rw [found, if_pos rfl])

theorem Orderly.touches_put (orderly : b.Orderly) {id : String} {s : Session}
    (live : b.find? id = some s) (s' : Session) (uid : s'.uid = s.uid) :
    Touches id b (b.putSession s') ∧ (b.putSession s').find? id = some s' := by
  obtain ⟨_, rfl, _, _⟩ := orderly.find?_some live
  refine orderly.touches_live live (fun w => ?_) rfl rfl fun ready =>
    ready.same rfl rfl rfl rfl rfl
  rw [session?_putSession, uid]

theorem subscribe_ready {uid : SessionUid} {filter : String} {qos : QoS} {added : Bool}
    (ready : b.Ready) (done : b.subscribe uid filter qos = .ok (b', added)) : b'.Ready := by
  have opened := subscribe_opened done
  obtain ⟨_, _, _, _, _, _, _, _, _, _, _, _, same⟩ := subscribe_changes done
  rw [same] at opened ⊢
  exact ready.same rfl opened rfl rfl rfl

theorem unsubscribe_ready {uid : SessionUid} {filter : String} {removed : Bool} (ready : b.Ready)
    (done : b.unsubscribe uid filter = .ok (b', removed)) : b'.Ready := by
  have opened := unsubscribe_opened done
  obtain ⟨rfl, _⟩ | ⟨_, _, _, _, _, _, _, _, _, _, _, _, _, _, _, _, _, _, _, _, same⟩ :=
    unsubscribe_changes done
  · exact ready
  · rw [same] at opened ⊢
    exact ready.same rfl opened rfl rfl rfl

theorem Orderly.touches_subscribe (orderly : b.Orderly) {id : String} {s : Session}
    (live : b.find? id = some s) {filter : String} {qos : QoS} {added : Bool}
    (done : b.subscribe s.uid filter qos = .ok (b', added)) :
    Touches id b b' ∧ ∃ s', b'.find? id = some s' ∧ s'.uid = s.uid ∧
      s'.info = { s.info with subscriptions := s.info.subscriptions.insert filter qos } := by
  obtain ⟨present, rfl, _, _⟩ := orderly.find?_some live
  obtain ⟨x, s', here, _, _, _, info, registry, reforms⟩ := orderly.reforms_subscribe done
  rw [present] at here
  cases here
  obtain ⟨touches, found⟩ := orderly.touches_live live reforms.found registry
    (subscribe_entries done) fun ready => subscribe_ready ready done
  exact ⟨touches, s', found, reforms.uid, info⟩

theorem Orderly.touches_unsubscribe (orderly : b.Orderly) {id : String} {s : Session}
    (live : b.find? id = some s) {filter : String} {removed : Bool}
    (done : b.unsubscribe s.uid filter = .ok (b', removed)) :
    Touches id b b' ∧ ∃ s', b'.find? id = some s' ∧ s'.uid = s.uid ∧ (s'.info = s.info ∨
      s'.info = { s.info with subscriptions := s.info.subscriptions.erase filter }) := by
  obtain ⟨present, rfl, _, _⟩ := orderly.find?_some live
  rcases orderly.reforms_unsubscribe done with
    rfl | ⟨x, s', here, _, _, _, info, _, _, registry, reforms⟩
  · exact ⟨.refl s.info.id b', s, live, rfl, Or.inl rfl⟩
  · rw [present] at here
    cases here
    obtain ⟨touches, found⟩ := orderly.touches_live live reforms.found registry
      (unsubscribe_entries done) fun ready => unsubscribe_ready ready done
    exact ⟨touches, s', found, reforms.uid, Or.inr info⟩

theorem persist_records (opened : b.storage.closed = false) {uid : SessionUid} {s : Session}
    (present : b.session? uid = some s) (done : b.persist uid = .ok b') :
    (∃ entries, b' = { b with storage := { b.storage with entries } }) ∧
      ∀ id, b'.record? id = if id = s.info.id then s.info.record? else b.record? id := by
  have stored : b' = { b with storage := { b.storage with
      entries := match s.info.record? with
        | none => b.storage.entries.erase (Session.key s.info.id)
        | some data => b.storage.entries.insert (Session.key s.info.id) data } } := by
    simp only [persist, present, Storage.Memory.deleteEntry_succeeds opened,
      Storage.Memory.setEntry_succeeds opened] at done
    unfold SessionInfo.record?
    cases clean : s.info.cleanSession with
    | true =>
        rw [clean] at done
        cases done
        rfl
    | false =>
        rw [clean] at done
        cases done
        rfl
  refine ⟨⟨_, stored⟩, fun id => ?_⟩
  rw [stored, record?]
  by_cases own : id = s.info.id
  · rw [if_pos own, own]
    cases s.info.record? with
    | none => simp only [Table.get?_erase, if_true]
    | some data => simp only [Table.get?_insert, if_true]
  · have apart : Session.key id ≠ Session.key s.info.id :=
      fun same => own (Session.key_injective same)
    rw [if_neg own]
    cases s.info.record? with
    | none => simp only [Table.get?_erase, if_neg apart, record?]
    | some data => simp only [Table.get?_insert, if_neg apart, record?]

theorem Orderly.mirrored_persist (orderly : b.Orderly) (opened : b.storage.closed = false)
    {id : String} {s : Session} (live : b.find? id = some s) (tidy : s.info.Tidy)
    (done : b.persist s.uid = .ok b') : Touches id b b' ∧ b'.Mirrored id := by
  obtain ⟨present, rfl, _, _⟩ := orderly.find?_some live
  obtain ⟨⟨entries, rfl⟩, record⟩ := persist_records opened present done
  have info : b.info? s.info.id = some s.info := by rw [info?, live, Option.map_some]
  constructor
  · refine ⟨fun _ _ => rfl, fun other apart => ?_, fun ready => ready.same rfl rfl rfl rfl rfl⟩
    rw [record, if_neg apart]
  · refine ⟨fun now present => ?_, ?_⟩
    · cases info.symm.trans present
      exact tidy
    · rw [record, if_pos rfl]
      exact (congrArg (Option.bind · SessionInfo.record?) info).symm

theorem Orderly.touches_create (orderly : b.Orderly) (id : String) (clean : Bool) :
    Touches id b (b.create id clean).1 ∧ (b.create id clean).1.find? id =
      some (Session.new b.nextUid { id, cleanSession := clean } b.settings.mqtt) := by
  have found := b.create_session? id clean
  have entry : ∀ other, (b.create id clean).1.registry.get? other =
      if other = id then some b.nextUid else b.registry.get? other :=
    fun other => Table.get?_insert ..
  constructor
  · refine orderly.touches b.nextUid ?_ (fun w other => ?_) (fun other apart => ?_)
      (fun _ _ => rfl) fun ready => ready.same rfl rfl rfl rfl rfl
    · exact fun x here => absurd (orderly.own here).2 (Nat.lt_irrefl _)
    · rw [found, if_neg other]
    · rw [entry, if_neg apart]
  · exact find?_of_entry (by rw [entry, if_pos rfl]) (by rw [found, if_pos rfl])

theorem closeQueues_info (b : Broker) (s : Session) (cleanup : Bool) :
    (b.closeQueues s cleanup).2.info = s.info := by
  obtain ⟨_, _, _, _, _, _, closed⟩ := b.closeQueues_changes s cleanup
  rw [closed]

theorem retire_erases (opened : b.storage.closed = false) (s : Session) :
    (b.retire s true).1.storage.entries = b.storage.entries.erase (Session.key s.info.id) := by
  have still : (b.storageWithout s true).closed = false :=
    (b.storageWithout_opened s true).trans opened
  simp only [retire, if_true, putSession, closeQueues_storage, closeQueues_info,
    Storage.Memory.deleteEntry_succeeds still, storageWithout_entries]

theorem closeSession_erases (opened : b.storage.closed = false) {uid : SessionUid} {s : Session}
    (present : b.session? uid = some s) (live : s.closed = false) :
    (b.closeSession uid true).1.storage.entries =
      b.storage.entries.erase (Session.key s.info.id) := by
  obtain ⟨connections, stats, isolated⟩ := b.isolate_changes s
  have still : (b.isolate s).storage.closed = false := by
    rw [isolated]
    exact opened
  simp only [closeSession, present, live, Bool.false_eq_true, if_false]
  rw [retire_erases still, isolated]

theorem destroy_changes (opened : b.storage.closed = false) {s : Session}
    (present : b.session? s.uid = some s) (live : s.closed = false)
    (entry : b.registry.get? s.info.id = some s.uid) :
    ∃ events reported connections stats inflight, (b.destroy s.uid).1 =
      ({ b with
          registry := b.registry.erase s.info.id
          exchange := (b.exchange.unbindAll s.uid).1
          storage := { b.storageWithout s true with
            entries := b.storage.entries.erase (Session.key s.info.id) }
          events, reported, connections, stats }).putSession
        { s with closed := true, client := none, queues := none, inflight } := by
  let unlisted : Broker := { b with
    registry := b.registry.erase s.info.id
    stats := { b.stats with sessions := b.stats.sessions.decrement } }
  have here : unlisted.session? s.uid = some s := present
  have erased := closeSession_erases (b := unlisted) opened here live
  obtain ⟨entries, events, reported, connections, stats, inflight, _, _, after⟩ :=
    closeSession_changes here live true
  rw [after] at erased
  cases erased
  refine ⟨events, reported, connections, stats, inflight, ?_⟩
  simp only [destroy, present, entry, if_true]
  exact after

theorem Orderly.touches_destroy (orderly : b.Orderly) (opened : b.storage.closed = false)
    {id : String} {s : Session} (live : b.find? id = some s) :
    Touches id b (b.destroy s.uid).1 ∧ (b.destroy s.uid).1.find? id = none ∧
      (b.destroy s.uid).1.record? id = none := by
  obtain ⟨present, rfl, unclosed, entry⟩ := orderly.find?_some live
  have absent := (destroy_registered present entry).1
  obtain ⟨_, _, _, _, _, after⟩ := destroy_changes opened present unclosed entry
  rw [after] at absent ⊢
  refine ⟨?_, absent, (Table.get?_erase ..).trans (if_pos rfl)⟩
  refine orderly.touches s.uid ?_ (fun w other => ?_) (fun other apart => ?_)
    (fun other apart => ?_) fun ready => ?_
  · intro x same
    rw [present] at same
    cases same
    rfl
  · rw [session?_putSession, if_neg other]
    rfl
  · exact (Table.get?_erase ..).trans (if_neg apart)
  · exact (Table.get?_erase ..).trans (if_neg fun same => apart (Session.key_injective same))
  · exact ready.same rfl (b.storageWithout_opened s true) rfl rfl rfl

theorem Orderly.touches_bind (orderly : b.Orderly) {id : String} {s : Session}
    (live : b.find? id = some s) (conn : Option ConnectionId) (unique : Bool) :
    Touches id b (b.bind s conn unique).1 ∧ ∃ s', (b.bind s conn unique).1.find? id = some s' ∧
      s'.uid = s.uid ∧ s'.info = s.info := by
  cases conn with
  | none => exact ⟨.refl id b, s, live, rfl, rfl⟩
  | some conn =>
      obtain ⟨touches, found⟩ := orderly.touches_put live { s with client := some conn } rfl
      unfold Broker.bind
      dsimp only
      split
      · exact ⟨touches, _, found, rfl, rfl⟩
      · -- the connection that was bound before is told to end, which no session notices
        rename_i old _
        generalize b.putSession { s with client := some conn } = bound at touches found ⊢
        have told : Undisturbed bound (if unique then bound.takeOver old else bound.halt old) := by
          split
          · exact undisturbed_of_eq rfl rfl rfl fun ready => ready.same rfl rfl rfl rfl rfl
          · exact undisturbed_of_eq rfl rfl rfl fun ready => ready.same rfl rfl rfl rfl rfl
        refine ⟨touches.trans (told.touches id), { s with client := some conn }, ?_, rfl, rfl⟩
        split
        · exact found
        · exact found

end Broker

end MqttBroker
