import MqttBroker.Proofs.Bindings
import MqttBroker.Proofs.Matching
import MqttBroker.Proofs.Restoring

/-!
What puts messages into the queues of sessions. A session is handed a message with an event, and
takes one only that it is granted by a filter it has. Nothing else that is done to a broker puts a
message into a queue.
-/

namespace MqttBroker

namespace DurableQueue

variable {τ : Type}

theorem Performed.unstored {q q' : DurableQueue τ} {b b' : Bucket} {a : Activity}
    {tickets : List τ} (turn : Performed q b a q' b' tickets) :
    q'.unstored.Sublist q.unstored := by
  cases turn with
  | received waits _ => simp [DurableQueue.unstored, waits]
  | stored _ _ _ _ => exact List.sublist_append_right ..
  | _ => exact List.Sublist.refl _

theorem performAll_unstored (q : DurableQueue τ) (b : Bucket) (activities : List Activity) :
    (q.performAll b activities).1.unstored.Sublist q.unstored := by
  induction activities generalizing q b with
  | nil => exact List.Sublist.refl _
  | cons a rest ih => exact (ih _ _).trans (q.perform_performed b a).unstored

end DurableQueue

theorem StoredQueue.turns_unstored {τ : Type} (q : StoredQueue τ) (m : Storage.Memory)
    (activities : List DurableQueue.Activity) :
    (q.turns m activities).queue.queue.unstored.Sublist q.queue.unstored := by
  unfold turns work
  split
  · exact List.Sublist.refl _
  · exact q.queue.performAll_unstored _ activities

def Adds (before : List Publish) (p : Publish) (after : List Publish) : Prop :=
  ∃ front back, after = front ++ p :: back ∧ (front ++ back).Sublist before

theorem Adds.mono {before more after : List Publish} {p : Publish} (adds : Adds before p after)
    (fewer : before.Sublist more) : Adds more p after := by
  obtain ⟨front, back, same, kept⟩ := adds
  exact ⟨front, back, same, kept.trans fewer⟩

theorem TemporaryQueue.push_messages (q : TemporaryQueue) (p : Publish) :
    (q.push p).1.messages = q.messages ∨
      ∃ kept, kept.Sublist q.messages ∧ (q.push p).1.messages = kept ++ [p] := by
  unfold push
  split
  · exact Or.inl rfl
  · split
    · exact Or.inr ⟨q.messages, List.Sublist.refl _, rfl⟩
    · split
      · exact Or.inl rfl
      · exact Or.inr ⟨q.messages.tail, List.tail_sublist _, rfl⟩

namespace Session

/-- The messages that wait in the queues of a session, but for those that are stored. -/
def queued (s : Session) : List Publish :=
  match s.queues with
  | none => []
  | some q => q.temporary.messages ++ q.durable.queue.unstored.map Prod.snd

theorem queued_some {s : Session} {q : SessionQueues} (some : s.queues = some q) :
    s.queued = q.temporary.messages ++ q.durable.queue.unstored.map Prod.snd := by
  rw [queued, some]

structure Indexed (s : Session) : Prop where
  neat : s.matcher.Neat
  filters : ∀ pattern filter, s.matcher.contains pattern filter = true →
    Topic.parse filter = .ok pattern

theorem indexed_new (uid : SessionUid) (info : SessionInfo) (settings : MqttSettings) :
    (new uid info settings).Indexed :=
  ⟨TopicTree.neat_empty, fun ⟨levels⟩ _ bound => by cases levels <;> cases bound⟩

variable {s s' : Session}

theorem Indexed.insert (indexed : s.Indexed) {filter : String} {pattern : Topic}
    (parsed : Topic.parse filter = .ok pattern)
    (matcher : s'.matcher = (s.matcher.insert pattern filter).1) : s'.Indexed where
  neat := matcher ▸ indexed.neat.insert parsed filter
  filters other f bound := by
    rw [matcher, TopicTree.contains_insert] at bound
    rcases bound with before | ⟨rfl, rfl⟩
    · exact indexed.filters other f before
    · exact parsed

theorem Indexed.remove (indexed : s.Indexed) {filter : String} {pattern : Topic}
    (matcher : s'.matcher = (s.matcher.remove pattern filter).1) : s'.Indexed where
  neat := matcher ▸ indexed.neat.remove pattern filter
  filters other f bound := by
    rw [matcher, TopicTree.contains_remove indexed.neat] at bound
    exact indexed.filters other f bound.1

theorem Indexed.same (indexed : s.Indexed) (matcher : s'.matcher = s.matcher) : s'.Indexed :=
  ⟨matcher ▸ indexed.neat, matcher ▸ indexed.filters⟩

theorem Indexed.granted (indexed : s.Indexed) {ns : Namespaces} {topic : String}
    (granted : (s.granted ns topic).isSome = true) :
    ∃ filter pattern, s.holds filter = true ∧ Topic.parse filter = .ok pattern ∧
      Selects ns filter pattern topic := by
  obtain ⟨filter, found, same, held⟩ := granted_isSome.mp granted
  obtain ⟨pattern, bound, selects⟩ := (TopicTree.mem_find_iff indexed.neat).mp found
  exact ⟨filter, pattern, held, indexed.filters pattern filter bound, same, selects⟩

end Session

namespace RetainStore

def Recorded (entries : Table String Bytes) : Prop :=
  ∀ key data, (key, data) ∈ entries → Text.startsWith keyStart key = true →
    ∀ record, Codec.Json.load? Codec.Json.toRetained? data = some record →
      record.message.topic = record.topic

theorem Recorded.erase {entries : Table String Bytes} (recorded : Recorded entries)
    (key : String) : Recorded (entries.erase key) :=
  fun other data member => recorded other data (List.mem_of_mem_filter member)

theorem Recorded.insert {entries : Table String Bytes} (recorded : Recorded entries)
    {key : String} {data : Bytes} (own : Text.startsWith keyStart key = true → ∀ record,
      Codec.Json.load? Codec.Json.toRetained? data = some record →
        record.message.topic = record.topic) : Recorded (entries.insert key data) := by
  intro other content member
  rcases Table.mem_insert member with same | old
  · cases same
    exact own
  · exact recorded other content old

theorem startsWith_session (id : String) :
    Text.startsWith keyStart (Session.key id) = false := by
  simp [Text.startsWith, keyStart, Session.key, Session.keyStart, List.isPrefixOf]

theorem Recorded.session {entries : Table String Bytes} (recorded : Recorded entries)
    (id : String) (data : Bytes) : Recorded (entries.insert (Session.key id) data) := by
  refine recorded.insert fun under => ?_
  rw [startsWith_session] at under
  cases under

theorem load_keyed {r loaded : RetainStore} {m : Storage.Memory} (recorded : Recorded m.entries)
    (keyed : Keyed r.messages) (read : r.load m = .ok loaded) :
    loaded.namespaces = r.namespaces ∧ Keyed loaded.messages := by
  simp only [load, Storage.Memory.entriesUnder, bind_eq_ok] at read
  obtain ⟨_, ⟨_, _, listed⟩, read⟩ := read
  cases listed
  cases read
  refine ⟨rfl, keyed.insertAll ?_⟩
  intro record member
  obtain ⟨⟨key, data⟩, entry, loads⟩ := List.mem_filterMap.mp member
  obtain ⟨entry, under⟩ := List.mem_filter.mp entry
  exact recorded key data entry under record loads

theorem set_keyed {r : RetainStore} (keyed : Keyed r.messages) {m : Storage.Memory}
    (recorded : Recorded m.entries) (p : Publish) :
    (r.set m p).1.namespaces = r.namespaces ∧ Keyed (r.set m p).1.messages ∧
      ∀ m', (r.set m p).2 = .ok m' → Recorded m'.entries := by
  unfold set
  dsimp only
  split
  · have erased : ∀ m', m.deleteEntry (key p.topic) = .ok m' → Recorded m'.entries := by
      intro m' deleted
      obtain ⟨_, rfl⟩ := Broker.deleteEntry_ok deleted
      exact recorded.erase _
    split
    · exact ⟨rfl, fun e member => keyed e (List.mem_filter.mp member).1, erased⟩
    · exact ⟨rfl, keyed, erased⟩
  · split
    · exact ⟨rfl, keyed, fun _ refused => nomatch refused⟩
    · rename_i stored
      refine ⟨rfl, keyed.insert rfl, fun m' same => ?_⟩
      cases same
      obtain ⟨_, rfl⟩ := Broker.setEntry_ok stored
      refine recorded.insert fun _ record loads => ?_
      rw [Codec.Json.load?_ofRetained] at loads
      cases loads
      rfl

theorem selects_of_mem_select {r : RetainStore} (keyed : Keyed r.messages) {filter : String}
    {p : Publish} (selected : p ∈ r.select filter) :
    ∃ pattern, Topic.parse filter = .ok pattern ∧ Selects r.namespaces filter pattern p.topic := by
  unfold select at selected
  split at selected
  · cases selected
  · rename_i pattern parsed
    obtain ⟨⟨topic, q⟩, kept, rfl⟩ := List.mem_map.mp selected
    obtain ⟨kept, selects⟩ := List.mem_filter.mp kept
    simp only [Bool.and_eq_true, decide_eq_true_eq] at selects
    rw [keyed _ kept]
    exact ⟨pattern, parsed, selects.1.symm, selects.2⟩

end RetainStore

namespace Broker

variable {b b' b'' : Broker}

def queuedFor (b : Broker) (uid : SessionUid) : List Publish :=
  ((b.session? uid).map Session.queued).getD []

structure Indexed (b : Broker) : Prop where
  sessions : ∀ uid s, b.session? uid = some s → s.uid = uid ∧ s.Indexed
  namespaces : b.retain.namespaces = b.namespaces
  retained : RetainStore.Keyed b.retain.messages
  recorded : RetainStore.Recorded b.storage.entries

structure Calm (b b' : Broker) : Prop where
  indexed : b'.Indexed
  namespaces : b'.namespaces = b.namespaces
  queued : ∀ uid, (b'.queuedFor uid).Sublist (b.queuedFor uid)

theorem Indexed.calm_refl (indexed : b.Indexed) : Calm b b :=
  ⟨indexed, rfl, fun _ => List.Sublist.refl _⟩

theorem Calm.trans (first : Calm b b') (second : Calm b' b'') : Calm b b'' where
  indexed := second.indexed
  namespaces := second.namespaces.trans first.namespaces
  queued uid := (second.queued uid).trans (first.queued uid)

theorem queuedFor_of_some {uid : SessionUid} {s : Session} (present : b.session? uid = some s) :
    b.queuedFor uid = s.queued := by
  rw [queuedFor, present]
  rfl

theorem Indexed.calm_beside (indexed : b.Indexed) (sessions : b'.sessions = b.sessions)
    (namespaces : b'.namespaces = b.namespaces) (retain : b'.retain = b.retain)
    (recorded : RetainStore.Recorded b'.storage.entries) : Calm b b' where
  indexed := by
    refine ⟨?_, ?_, retain ▸ indexed.retained, recorded⟩
    · unfold session?
      rw [sessions]
      exact indexed.sessions
    · rw [retain, namespaces]
      exact indexed.namespaces
  namespaces := namespaces
  queued uid := by
    rw [queuedFor, queuedFor, session?, session?, sessions]

theorem Indexed.put (indexed : b.Indexed) {s : Session} (own : s.Indexed)
    (sessions : b'.sessions = b.sessions.insert s.uid s)
    (namespaces : b'.namespaces = b.namespaces) (retain : b'.retain = b.retain)
    (recorded : RetainStore.Recorded b'.storage.entries) : b'.Indexed where
  sessions uid x present := by
    rw [session?, sessions, Table.get?_insert] at present
    split at present
    · rename_i same
      cases present
      exact ⟨same.symm, own⟩
    · exact indexed.sessions uid x present
  namespaces := by
    rw [retain, namespaces]
    exact indexed.namespaces
  retained := retain ▸ indexed.retained
  recorded := recorded

theorem queuedFor_put {s : Session} (sessions : b'.sessions = b.sessions.insert s.uid s)
    (uid : SessionUid) :
    b'.queuedFor uid = if uid = s.uid then s.queued else b.queuedFor uid := by
  simp only [queuedFor, session?, sessions, Table.get?_insert]
  split <;> rfl

theorem Indexed.calm_put (indexed : b.Indexed) {s : Session} (own : s.Indexed)
    (queued : s.queued.Sublist (b.queuedFor s.uid))
    (sessions : b'.sessions = b.sessions.insert s.uid s)
    (namespaces : b'.namespaces = b.namespaces) (retain : b'.retain = b.retain)
    (recorded : RetainStore.Recorded b'.storage.entries) : Calm b b' where
  indexed := indexed.put own sessions namespaces retain recorded
  namespaces := namespaces
  queued uid := by
    rw [queuedFor_put sessions]
    split
    · rename_i same
      rw [same]
      exact queued
    · exact List.Sublist.refl _

/-! What puts no message into a queue -/

theorem Indexed.calm_subscribe (indexed : b.Indexed) {uid : SessionUid} {filter : String}
    {qos : QoS} {added : Bool} (done : b.subscribe uid filter qos = .ok (b', added)) :
    Calm b b' := by
  have entries := subscribe_entries done
  obtain ⟨topic, s, storage, exchange, _, queues, matcher, parsed, present, _, provided, entered,
    rfl⟩ := subscribe_changes done
  obtain ⟨rfl, own⟩ := indexed.sessions uid s present
  apply indexed.calm_put (s := { s with queues, matcher, info := { s.info with
    subscriptions := s.info.subscriptions.insert filter qos } })
  case own =>
    rcases entered with ⟨_, _, _, same⟩ | ⟨_, _, inserted, _⟩
    · exact own.same same
    · exact own.insert parsed inserted
  case queued =>
    rw [queuedFor_of_some present]
    cases provided with
    | before _ => exact List.Sublist.refl _
    | now _ _ => exact List.nil_sublist _
  case sessions => rfl
  case namespaces =>
    rcases entered with ⟨_, _, rfl, _⟩ | ⟨_, _, _, _, binding⟩
    · rfl
    · exact Exchange.bind_namespaces binding
  case retain => rfl
  case recorded =>
    rw [entries]
    exact indexed.recorded

theorem Indexed.calm_unsubscribe (indexed : b.Indexed) {uid : SessionUid} {filter : String}
    {removed : Bool} (done : b.unsubscribe uid filter = .ok (b', removed)) : Calm b b' := by
  have entries := unsubscribe_entries done
  obtain ⟨rfl, _⟩ | ⟨s, subscriptions, exchange, _, _, _, _, _, _, queues, inflight, matcher,
    present, _, _, _, unbound, emptied, _, without, rfl⟩ := unsubscribe_changes done
  · exact indexed.calm_refl
  · obtain ⟨rfl, own⟩ := indexed.sessions uid s present
    apply indexed.calm_put (s := { s with queues, inflight, matcher, info := { s.info with
      subscriptions } })
    case own =>
      rcases without with same | ⟨_, removed⟩
      · exact own.same same
      · exact own.remove removed
    case queued =>
      rw [queuedFor_of_some present]
      rcases emptied with ⟨_, _, rfl⟩ | ⟨_, _, rfl⟩
      · exact List.Sublist.refl _
      · exact List.nil_sublist _
    case sessions => rfl
    case namespaces => exact Exchange.unbind_namespaces unbound
    case retain => rfl
    case recorded =>
      rw [entries]
      exact indexed.recorded

theorem Indexed.calm_closeSession (indexed : b.Indexed) (uid : SessionUid) (cleanup : Bool) :
    Calm b (b.closeSession uid cleanup).1 := by
  rcases b.closeSession_cases uid cleanup with ⟨_, same⟩ | ⟨s, present, live⟩
  · rw [same]
    exact indexed.calm_refl
  · obtain ⟨entries, _, _, _, _, inflight, kept, _, after⟩ :=
      closeSession_changes present live cleanup
    obtain ⟨rfl, own⟩ := indexed.sessions uid s present
    rw [after]
    apply indexed.calm_put (s := { s with closed := true, client := none, queues := none, inflight })
    case own => exact own.same rfl
    case queued => exact List.nil_sublist _
    case sessions => rfl
    case namespaces => rfl
    case retain => rfl
    case recorded =>
      rcases kept with rfl | ⟨_, rfl⟩
      · exact b.storageWithout_entries s cleanup ▸ indexed.recorded
      · exact (b.storageWithout_entries s cleanup ▸ indexed.recorded).erase _

theorem Indexed.calm_destroy (indexed : b.Indexed) (uid : SessionUid) :
    Calm b (b.destroy uid).1 := by
  unfold destroy
  split
  · exact indexed.calm_refl
  · split
    · rename_i s _ _
      have unregistered : Calm b { b with
          registry := b.registry.erase s.info.id
          stats := { b.stats with sessions := b.stats.sessions.decrement } } :=
        indexed.calm_beside rfl rfl rfl indexed.recorded
      exact unregistered.trans (unregistered.indexed.calm_closeSession uid true)
    · exact indexed.calm_closeSession uid true

theorem Indexed.calm_new (indexed : b.Indexed) (info : SessionInfo)
    (sessions : b'.sessions =
      b.sessions.insert b.nextUid (Session.new b.nextUid info b.settings.mqtt))
    (namespaces : b'.namespaces = b.namespaces) (retain : b'.retain = b.retain)
    (storage : b'.storage = b.storage) : Calm b b' := by
  apply indexed.calm_put (s := Session.new b.nextUid info b.settings.mqtt)
    (Session.indexed_new ..) (List.nil_sublist _) sessions namespaces retain
  rw [storage]
  exact indexed.recorded

theorem Indexed.calm_change (indexed : b.Indexed) {s s' : Session}
    (present : b.session? s.uid = some s) (uid : s'.uid = s.uid) (matcher : s'.matcher = s.matcher)
    (queues : s'.queues = s.queues) : Calm b (b.putSession s') := by
  apply indexed.calm_put (s := s')
  case own => exact (indexed.sessions s.uid s present).2.same matcher
  case queued =>
    rw [uid, queuedFor_of_some present, Session.queued, Session.queued, queues]
  case sessions => rfl
  case namespaces => rfl
  case retain => rfl
  case recorded => exact indexed.recorded

theorem Indexed.calm_persist (indexed : b.Indexed) {uid : SessionUid}
    (done : b.persist uid = .ok b') : Calm b b' := by
  rcases persist_changes done with rfl | ⟨s, entries, _, kept, rfl⟩
  · exact indexed.calm_refl
  · refine indexed.calm_beside rfl rfl rfl ?_
    rcases kept with ⟨_, rfl⟩ | ⟨_, rfl⟩
    · exact indexed.recorded.erase _
    · exact indexed.recorded.session _ _

theorem Indexed.calm_bind (indexed : b.Indexed) {s : Session} (present : b.session? s.uid = some s)
    (conn : Option ConnectionId) (unique : Bool) : Calm b (b.bind s conn unique).1 := by
  unfold Broker.bind
  split
  · exact indexed.calm_refl
  · rename_i conn
    have bound : Calm b (b.putSession { s with client := some conn }) :=
      indexed.calm_change present rfl rfl rfl
    dsimp only
    split
    · exact bound
    · refine bound.trans (bound.indexed.calm_beside ?_ ?_ ?_ ?_)
      all_goals dsimp only
      all_goals split
      all_goals first | rfl | exact bound.indexed.recorded

theorem Indexed.calm_settleClaim (indexed : b.Indexed) (c : Claim) :
    Calm b (b.settleClaim c).1 := by
  have created : ∀ {x : Broker}, x.Indexed → Calm x (x.create c.id c.clean).1 :=
    fun ready => ready.calm_new _ rfl rfl rfl rfl
  unfold settleClaim
  split
  · exact created indexed
  · rename_i s _
    split
    · exact indexed.calm_refl
    · have gone := indexed.calm_destroy s.uid
      split
      · rename_i same
        rw [same] at gone
        exact gone
      · rename_i same
        rw [same] at gone
        exact gone.trans (created gone.indexed)

theorem Indexed.calm_takeUp (indexed : b.Indexed) (c : Claim) (conn : Option ConnectionId)
    (unique : Bool) (uid : SessionUid) (present : Bool) :
    Calm b (b.takeUp c conn unique uid present).1 := by
  unfold takeUp
  split
  · exact indexed.calm_refl
  · rename_i s here
    obtain ⟨rfl, _⟩ := indexed.sessions uid s here
    let s' : Session := { s with info := { s.info with
      cleanSession := c.clean, will := c.will, principal := c.principal } }
    have taken : Calm b (b.putSession s') := indexed.calm_change here rfl rfl rfl
    have there : (b.putSession s').session? s'.uid = some s' := by
      rw [session?_putSession, if_pos rfl]
    have bound := taken.trans (taken.indexed.calm_bind there conn unique)
    dsimp only
    split
    · exact bound
    · rename_i stored
      exact bound.trans (bound.indexed.calm_persist stored)

theorem Indexed.calm_claim (indexed : b.Indexed) (c : Claim) (conn : Option ConnectionId)
    (unique : Bool) : Calm b (b.claim c conn unique).1 := by
  have settled := indexed.calm_settleClaim c
  rw [claim_takeUp]
  split
  · exact indexed.calm_refl
  · split
    · rename_i same
      rw [same] at settled
      exact settled
    · rename_i same
      rw [same] at settled
      exact settled.trans (settled.indexed.calm_takeUp ..)

theorem Indexed.calm_release (indexed : b.Indexed) (uid : SessionUid) (conn : ConnectionId) :
    Calm b (b.release uid conn) := by
  unfold release
  split
  · exact indexed.calm_refl
  · rename_i s present
    obtain ⟨rfl, _⟩ := indexed.sessions uid s present
    split
    · exact indexed.calm_refl
    · have unbound : Calm b (b.putSession { s with client := none }) :=
        indexed.calm_change present rfl rfl rfl
      dsimp only
      split
      · exact unbound.trans (unbound.indexed.calm_destroy s.uid)
      · exact unbound

theorem Indexed.calm_subscribeAll (indexed : b.Indexed) (uid : SessionUid) (grants : Grants)
    (requests : List (String × QoS)) : Calm b (subscribeAll uid grants requests b).1 := by
  induction requests generalizing b with
  | nil => exact indexed.calm_refl
  | cons request rest ih =>
      simp only [subscribeAll]
      split
      · split
        · exact indexed.calm_refl
        · rename_i done
          have subscribed := indexed.calm_subscribe done
          exact subscribed.trans (ih subscribed.indexed)
      · exact ih indexed

theorem Indexed.calm_requestSubscriptions (indexed : b.Indexed) (uid : SessionUid)
    (grants : Grants) (requests : List (String × QoS)) :
    Calm b (b.requestSubscriptions uid grants requests).1 := by
  have entered := indexed.calm_subscribeAll uid grants requests
  unfold requestSubscriptions
  split
  · rename_i same
    rw [same] at entered
    exact entered
  · rename_i same
    rw [same] at entered
    split
    · rename_i stored
      exact entered.trans (entered.indexed.calm_persist stored)
    · exact entered

theorem Indexed.calm_unsubscribeAll (indexed : b.Indexed) (uid : SessionUid)
    (filters : List String) : Calm b (unsubscribeAll uid filters b).1 := by
  induction filters generalizing b with
  | nil => exact indexed.calm_refl
  | cons filter rest ih =>
      simp only [unsubscribeAll]
      split
      · rename_i done
        have unsubscribed := indexed.calm_unsubscribe done
        exact unsubscribed.trans (ih unsubscribed.indexed)
      · exact indexed.calm_refl

theorem Indexed.calm_requestUnsubscriptions (indexed : b.Indexed) (uid : SessionUid)
    (filters : List String) : Calm b (b.requestUnsubscriptions uid filters).1 := by
  have dropped := indexed.calm_unsubscribeAll uid filters
  unfold requestUnsubscriptions
  split
  · rename_i same
    rw [same] at dropped
    exact dropped
  · rename_i same
    rw [same] at dropped
    split
    · rename_i stored
      exact dropped.trans (dropped.indexed.calm_persist stored)
    · exact dropped

theorem Indexed.calm_doneAll (indexed : b.Indexed) (ids : List EventId) :
    Calm b (b.doneAll ids) := by
  obtain ⟨_, _, frame⟩ := b.doneAll_frame ids
  rw [frame]
  exact indexed.calm_beside rfl rfl rfl indexed.recorded

theorem Indexed.calm_enter (indexed : b.Indexed) (message : Publish) (recipients : Nat)
    (completion : Completion) : Calm b (b.enter message recipients completion).1 := by
  obtain ⟨_, _, frame⟩ := b.enter_frame message recipients completion
  rw [frame]
  exact indexed.calm_beside rfl rfl rfl indexed.recorded

theorem enter_event? (b : Broker) (message : Publish) (recipients : Nat) (completion : Completion) :
    (b.enter message recipients completion).1.events.event?
      (b.enter message recipients completion).2 = some (.new message recipients) := by
  obtain ⟨_, _, frame⟩ := b.enter_frame message recipients completion
  rw [frame]
  simp only [enter, Ledger.enter, Ledger.event?, Table.get?_insert, if_true, Option.map_some]

theorem Indexed.calm_keep (indexed : b.Indexed) (p : Publish) : Calm b (b.keep p) := by
  obtain ⟨namespaces, keyed, recorded⟩ :=
    RetainStore.set_keyed indexed.retained indexed.recorded p
  unfold keep
  split
  · split
    · rename_i same
      rw [same] at namespaces keyed recorded
      exact ⟨⟨indexed.sessions, namespaces.trans indexed.namespaces, keyed, recorded _ rfl⟩, rfl,
        fun _ => List.Sublist.refl _⟩
    · rename_i same
      rw [same] at namespaces keyed
      exact ⟨⟨indexed.sessions, namespaces.trans indexed.namespaces, keyed, indexed.recorded⟩, rfl,
        fun _ => List.Sublist.refl _⟩
  · exact indexed.calm_refl

theorem Indexed.calm_announce (indexed : b.Indexed) (p : Publish) (completion : Completion) :
    Calm b (b.announce p completion).1 := by
  have kept := indexed.calm_keep p
  unfold announce
  generalize b.keep p = x at kept ⊢
  dsimp only
  have counted : ∀ stats, Calm x { x with stats } := fun _ =>
    kept.indexed.calm_beside rfl rfl rfl kept.indexed.recorded
  exact (kept.trans (counted _)).trans ((counted _).indexed.calm_enter ..)

theorem Indexed.calm_turns (indexed : b.Indexed) (uid : SessionUid)
    (activities : List DurableQueue.Activity) : Calm b (b.turns uid activities) := by
  have entries := b.turns_entries uid activities
  unfold turns withQueue at entries ⊢
  split at entries
  · exact indexed.calm_refl
  · rename_i s present
    split at entries
    · exact indexed.calm_refl
    · rename_i q queued
      obtain ⟨rfl, own⟩ := indexed.sessions uid s present
      have fewer := q.durable.turns_unstored b.storage activities
      dsimp only at entries ⊢
      generalize q.durable.turns b.storage activities = w at entries fewer ⊢
      obtain ⟨_, _, frame⟩ := (({ b with storage := w.memory } : Broker).putSession
        { s with queues := some { q with durable := w.queue } }).doneAll_frame (w.done ++ w.refused)
      rw [frame] at entries ⊢
      apply indexed.calm_put (s := { s with queues := some { q with durable := w.queue } })
      case own => exact own.same rfl
      case queued =>
        rw [queuedFor_of_some present, Session.queued_some queued]
        exact (fewer.map Prod.snd).append_left _
      case sessions => rfl
      case namespaces => rfl
      case retain => rfl
      case recorded =>
        rw [entries]
        exact indexed.recorded

theorem Indexed.calm_useQueues (indexed : b.Indexed) (uid : SessionUid)
    {use : SessionQueues → SessionQueues}
    (fewer : ∀ q, (use q).temporary.messages.Sublist q.temporary.messages ∧
      (use q).durable.queue.unstored = q.durable.queue.unstored) :
    Calm b (b.useQueues uid use) := by
  unfold useQueues
  split
  · exact indexed.calm_refl
  · rename_i s present
    obtain ⟨rfl, own⟩ := indexed.sessions uid s present
    apply indexed.calm_put (s := { s with queues := s.queues.map use })
    case own => exact own.same rfl
    case queued =>
      rw [queuedFor_of_some present]
      cases queued : s.queues with
      | none => exact List.nil_sublist _
      | some q =>
          obtain ⟨temporary, durable⟩ := fewer q
          rw [Session.queued_some queued, ← durable]
          exact temporary.append_right _
    case sessions => rfl
    case namespaces => rfl
    case retain => rfl
    case recorded => exact indexed.recorded

/-! What a start makes -/

theorem startKeeps_indexed (ns : Namespaces) :
    StartKeeps fun b => b.Indexed ∧ b.namespaces = ns where
  added := by
    intro b info holds
    have added : Calm b (({ b with nextUid := b.nextUid + 1 }).putSession
        (Session.new b.nextUid { info with subscriptions := [] } b.settings.mqtt)) :=
      holds.1.calm_new { info with subscriptions := [] } rfl rfl rfl rfl
    exact ⟨added.indexed, added.namespaces.trans holds.2⟩
  subscribed holds done := by
    have subscribed := holds.1.calm_subscribe done
    exact ⟨subscribed.indexed, subscribed.namespaces.trans holds.2⟩
  recorded holds done := by
    have recorded := holds.1.calm_persist done
    exact ⟨recorded.indexed, recorded.namespaces.trans holds.2⟩
  enrolled := by
    intro b b' id uid holds done
    have entries := enroll_entries done
    have beside : b'.sessions = b.sessions ∧ b'.namespaces = b.namespaces ∧
        b'.retain = b.retain := by
      simp only [enroll] at done
      split at done
      · cases done
        exact ⟨rfl, rfl, rfl⟩
      · simp only [bind_eq_ok, mapError_eq_ok] at done
        obtain ⟨_, _, _, emptied, done⟩ := done
        cases emptied
        cases done
        exact ⟨rfl, rfl, rfl⟩
    obtain ⟨sessions, namespaces, retain⟩ := beside
    have enrolled := holds.1.calm_beside sessions namespaces retain
      (entries ▸ holds.1.recorded)
    exact ⟨enrolled.indexed, enrolled.namespaces.trans holds.2⟩
  deleted := by
    intro b storage key holds deleted
    obtain ⟨_, rfl⟩ := deleteEntry_ok deleted
    have erased : Calm b { b with storage := { b.storage with
        entries := b.storage.entries.erase key } } :=
      holds.1.calm_beside rfl rfl rfl (holds.1.recorded.erase key)
    exact ⟨erased.indexed, holds.2⟩

theorem start_indexed {settings : Settings} {storage : Storage.Memory} {now : Nat}
    {clock : Int64} (recorded : RetainStore.Recorded storage.entries)
    (done : start settings storage now clock = .ok b) :
    b.Indexed ∧ b.namespaces = .ofList settings.mqtt.systemTopicPrefixes := by
  refine (startKeeps_indexed _).start ?_ done
  intro retain loaded
  have empty : RetainStore.Keyed (Broker.new settings storage now clock).retain.messages := by
    intro e member
    cases member
  obtain ⟨namespaces, keyed⟩ := RetainStore.load_keyed recorded empty loaded
  refine ⟨⟨?_, namespaces, keyed, recorded⟩, rfl⟩
  intro uid s present
  cases present

/-! What puts a message into a queue -/

/-- A session has been handed an event. Only the session may have more in its queues, and that is the
message of the event. -/
structure Hands (b b' : Broker) (uid : SessionUid) (event : EventId) : Prop where
  indexed : b'.Indexed
  namespaces : b'.namespaces = b.namespaces
  queued : ∀ w, (b'.queuedFor w).Sublist (b.queuedFor w) ∨
    w = uid ∧ ∃ e, b.events.event? event = some e ∧
      Adds (b.queuedFor w) e.message (b'.queuedFor w)

theorem Calm.hands (calm : Calm b b') (uid : SessionUid) (event : EventId) :
    Hands b b' uid event :=
  ⟨calm.indexed, calm.namespaces, fun w => Or.inl (calm.queued w)⟩

theorem Indexed.hands_put (indexed : b.Indexed) {s : Session} (s' : Session) {event : EventId}
    {e : Event} (present : b.session? s.uid = some s) (entered : b.events.event? event = some e)
    (uid : s'.uid = s.uid) (matcher : s'.matcher = s.matcher)
    (queued : s'.queued.Sublist s.queued ∨ Adds s.queued e.message s'.queued)
    (sessions : b'.sessions = b.sessions.insert s'.uid s')
    (namespaces : b'.namespaces = b.namespaces) (retain : b'.retain = b.retain)
    (storage : b'.storage = b.storage) : Hands b b' s.uid event where
  indexed := by
    refine indexed.put ((indexed.sessions s.uid s present).2.same matcher) sessions namespaces
      retain ?_
    rw [storage]
    exact indexed.recorded
  namespaces := namespaces
  queued w := by
    rw [queuedFor_put sessions, uid]
    split
    · rename_i same
      rw [same, queuedFor_of_some present]
      exact queued.imp_right fun added => ⟨rfl, e, entered, added⟩
    · exact Or.inl (List.Sublist.refl _)

theorem Indexed.hands_pushGranted (indexed : b.Indexed) (uid : SessionUid) (event : EventId)
    (qos : QoS) : Hands b (b.pushGranted uid event qos) uid event := by
  unfold pushGranted
  split
  · rename_i s e present entered
    obtain ⟨rfl, _⟩ := indexed.sessions uid s present
    split
    · exact (indexed.calm_doneAll [event]).hands s.uid event
    · rename_i q queued _
      dsimp only
      generalize (if (q.temporary.push e.message).2 = .overran then b.stats.qos0Dropped.increment
        else b.stats.qos0Dropped) = dropped
      obtain ⟨_, _, frame⟩ := (({ b with
        stats := { b.stats with qos0Dropped := dropped } } : Broker).putSession
          { s with queues := some { q with temporary := (q.temporary.push e.message).1 } })
        |>.doneAll_frame [event]
      rw [done, frame]
      refine indexed.hands_put
        { s with queues := some { q with temporary := (q.temporary.push e.message).1 } }
        present entered rfl rfl ?_ rfl rfl rfl rfl
      rw [Session.queued_some queued, Session.queued_some rfl]
      rcases q.temporary.push_messages e.message with same | ⟨kept, fewer, same⟩
      · rw [same]
        exact Or.inl (List.Sublist.refl _)
      · rw [same]
        refine Or.inr ⟨kept, q.durable.queue.unstored.map Prod.snd, by simp, ?_⟩
        exact fewer.append_right _
    · rename_i q queued _
      split
      · exact (indexed.calm_doneAll [event]).hands s.uid event
      · rename_i durable pushed
        refine indexed.hands_put { s with queues := some { q with durable } } present entered rfl rfl
          (Or.inr ?_) rfl rfl rfl rfl
        obtain ⟨queue, accepted, rfl⟩ := Option.map_eq_some_iff.mp pushed
        unfold DurableQueue.push at accepted
        split at accepted
        · cases accepted
        · cases accepted
          rw [Session.queued_some queued, Session.queued_some rfl]
          refine ⟨q.temporary.messages ++ q.durable.queue.unstored.map Prod.snd, [], ?_, by simp⟩
          simp [DurableQueue.unstored]
  · exact indexed.calm_refl.hands uid event

theorem Indexed.hands_push (indexed : b.Indexed) (uid : SessionUid) (event : EventId) :
    Hands b (b.push uid event) uid event := by
  unfold push
  split
  · split
    · exact indexed.hands_pushGranted ..
    · exact (indexed.calm_doneAll [event]).hands uid event
  · exact indexed.calm_refl.hands uid event

/-- By its subscriptions a session takes a message only if it has a filter that selects the topic
within its namespace. Otherwise nothing happens to any session. -/
theorem Indexed.push_granted (indexed : b.Indexed) (uid : SessionUid) (event : EventId) :
    (b.push uid event).sessions = b.sessions ∨
      ∃ s e filter pattern, b.session? uid = some s ∧ b.events.event? event = some e ∧
        s.holds filter = true ∧ Topic.parse filter = .ok pattern ∧
        Selects b.namespaces filter pattern e.message.topic := by
  cases present : b.session? uid with
  | none => exact Or.inl (by simp only [push, present])
  | some s =>
      cases entered : b.events.event? event with
      | none => exact Or.inl (by simp only [push, present, entered])
      | some e =>
          cases granted : s.granted b.namespaces e.message.topic with
          | none =>
              obtain ⟨_, _, frame⟩ := b.doneAll_frame [event]
              exact Or.inl (by simp only [push, present, entered, granted, done, frame])
          | some qos =>
              obtain ⟨filter, pattern, held, parsed, selects⟩ :=
                (indexed.sessions uid s present).2.granted (by rw [granted]; rfl)
              exact Or.inr ⟨s, e, filter, pattern, rfl, rfl, held, parsed, selects⟩

end Broker

end MqttBroker
