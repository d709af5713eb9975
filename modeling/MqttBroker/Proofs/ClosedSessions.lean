import MqttBroker.Proofs.Histories

/-!
Sessions that have been closed for good. Whoever still holds one can call what is called on a
session. All the same no other session, no bucket, no binding and no entry of the registry changes,
and in storage nothing but the record of the client's id.
-/

namespace MqttBroker

namespace Broker

variable {clients : List Client} {handed : List (SessionUid × Publish)} {b b' b'' : Broker}

def Gone (b : Broker) (uid : SessionUid) : Prop :=
  ∃ s, b.session? uid = some s ∧ s.closed = true ∧ s.inflight.entries = []

theorem Orderly.idle (orderly : b.Orderly) {uid : SessionUid} {s : Session}
    (present : b.session? uid = some s) (closed : s.closed = true) : s.queues = none := by
  cases queued : s.queues with
  | none => rfl
  | some q =>
      have live := (orderly.owned uid s q present queued).1
      rw [closed] at live
      cases live

theorem Orderly.unlisted (orderly : b.Orderly) {uid : SessionUid} {s : Session}
    (present : b.session? uid = some s) (closed : s.closed = true) (id : String) :
    b.registry.get? id ≠ some uid := by
  intro entry
  obtain ⟨x, here, _, live⟩ := orderly.live id uid entry
  rw [present] at here
  cases here
  rw [closed] at live
  cases live

theorem Orderly.unbound (orderly : b.Orderly) {uid : SessionUid} {s : Session}
    (present : b.session? uid = some s) (closed : s.closed = true) (p : Exchange.Place) :
    b.exchange.holds p uid = false := by
  obtain ⟨dropped, routed⟩ := orderly.routed
  rw [← Bool.not_eq_true, routed.bound]
  rintro ⟨_, ⟨x, here, live, _⟩, _⟩
  rw [present] at here
  cases here
  rw [closed] at live
  cases live

/-! Closed for good once, closed for good ever after -/

theorem Gone.effect {uid : SessionUid} (gone : b.Gone uid) (orderly : b.Orderly)
    (effect : Effect clients handed b b') : b'.Gone uid := by
  obtain ⟨x, present, closed, empty⟩ := gone
  cases effect with
  | still still => exact ⟨x, by rw [still.session?]; exact present, closed, empty⟩
  | created id clean _ _ =>
      refine ⟨x, ?_, closed, empty⟩
      rw [create_session?, if_neg (Nat.ne_of_lt (orderly.own present).2)]
      exact present
  | stopped _ => exact ⟨x, orderly.closeSessions.2.2 uid x present closed, closed, empty⟩
  | reformed reforms reformed =>
      rename_i s s'
      by_cases own : uid = s.uid
      · subst own
        cases reforms.present.symm.trans present
        have idle := orderly.idle present closed
        refine ⟨s', by rw [reforms.found, if_pos rfl], ?_⟩
        cases reformed with
        | used used _ => exact ⟨used.closed.trans closed, used.window idle empty⟩
        | queued queued _ _ _ _ =>
            rw [idle] at queued
            cases queued
        | turned _ queued _ _ =>
            rw [idle] at queued
            cases queued
        | subscribed _ _ _ live _ _ _ =>
            rw [closed] at live
            cases live
        | unsubscribed same _ _ window => exact ⟨same.trans closed, window empty⟩
        | closed live _ _ _ _ =>
            rw [closed] at live
            cases live
      · exact ⟨x, by rw [reforms.found, if_neg own]; exact present, closed, empty⟩

theorem Changes.gone {uid : SessionUid} (changes : Changes clients handed b b')
    (orderly : b.Orderly) (gone : b.Gone uid) : b'.Gone uid :=
  (changes.preserve (P := fun b => b.Gone uid)
    (fun orderly gone change => gone.effect orderly (change.effect orderly)) orderly gone).2

theorem destroy_gone (orderly : b.Orderly) {s : Session} (present : b.session? s.uid = some s)
    (live : s.closed = false) : (b.destroy s.uid).1.Gone s.uid := by
  obtain ⟨registry, stats, same, _, _⟩ := orderly.destroy_unregisters present
  obtain ⟨_, _, _, _, _, inflight, _, empty, after⟩ :=
    closeSession_changes (b := { b with registry, stats }) present live true
  rw [same, after]
  refine ⟨{ s with closed := true, client := none, queues := none, inflight }, ?_, rfl, empty rfl⟩
  rw [session?_putSession]
  exact if_pos rfl

theorem release_gone (orderly : b.Orderly) {s : Session} (present : b.session? s.uid = some s)
    (live : s.closed = false) {conn : ConnectionId} (bound : s.client = some conn)
    (clean : s.info.cleanSession = true) (running : b.shuttingDown = false) :
    (b.release s.uid conn).Gone s.uid := by
  let unbound : Session := { s with client := none }
  have used : s.Used unbound := Session.used_of_durable rfl rfl rfl rfl
    (fun closed => absurd (live.symm.trans closed) Bool.false_ne_true) rfl rfl
  have here : (b.putSession unbound).session? unbound.uid = some unbound := by
    rw [session?_putSession, if_pos rfl]
  have gone := destroy_gone (orderly.used present used) here live
  have down : (b.putSession unbound).shuttingDown = false := running
  simp only [release, present, bound, ne_eq, not_true_eq_false, if_false, clean, Bool.true_and]
  rw [if_pos (by simpa using down)]
  exact gone

variable (clients handed) in
theorem claim_replaces (orderly : b.Orderly) (running : b.shuttingDown = false) {c : Claim}
    {s : Session} (found : b.find? c.id = some s)
    (clean : c.clean = true ∨ s.info.cleanSession = true) (conn : Option ConnectionId)
    (unique : Bool) :
    Changes clients handed (b.destroy s.uid).1 (b.claim c conn unique).1 := by
  obtain ⟨uid, entry, present⟩ := Option.bind_eq_some_iff.mp found
  obtain ⟨x, here, id, _⟩ := orderly.live c.id uid entry
  rw [present] at here
  cases here
  obtain ⟨rfl, _⟩ := orderly.own present
  obtain ⟨absent, down⟩ := destroy_registered present (id ▸ entry)
  have either : ¬(!c.clean && !s.info.cleanSession) = true := by
    rcases clean with clean | clean <;> simp [clean]
  simp only [claim_takeUp, running, Bool.false_eq_true, if_false, settleClaim, found, either]
  generalize destroyed : b.destroy s.uid = after at absent down ⊢
  obtain ⟨next, outcome⟩ := after
  cases outcome with
  | error e => exact .refl next
  | ok _ =>
      have made : Changes clients handed next (next.create c.id c.clean).1 :=
        .one (.created c.id c.clean (id ▸ absent) (down.trans running))
      exact made.trans (takeUp_created clients handed rfl).1

/-! Calls that come too late -/

/-- A call of one who still holds the session. -/
inductive LateCall
  | subscribe (grants : Grants) (requests : List (String × QoS))
  | unsubscribe (filters : List String)
  | persist
  | push (event : EventId)
  | pushGranted (event : EventId) (qos : QoS)
  | release (conn : ConnectionId)
  | destroy

def late (b : Broker) (uid : SessionUid) : LateCall → Broker
  | .subscribe grants requests => (b.requestSubscriptions uid grants requests).1
  | .unsubscribe filters => (b.requestUnsubscriptions uid filters).1
  | .persist => (b.persist uid).toOption.getD b
  | .push event => b.push uid event
  | .pushGranted event qos => b.pushGranted uid event qos
  | .release conn => b.release uid conn
  | .destroy => (b.destroy uid).1

/-- The call persists the session. A SUBSCRIBE does so only if it refuses all that is asked for. -/
def LateCall.Persists (b : Broker) (uid : SessionUid) : LateCall → Prop
  | .subscribe grants requests => ∀ r ∈ requests, b.allows uid grants r.1 = false
  | .unsubscribe _ => True
  | .persist => True
  | _ => False

/-- The call takes a filter from the session that it has kept from before it was closed. -/
def LateCall.Drops (s : Session) : LateCall → Prop
  | .unsubscribe filters => ∃ filter ∈ filters, s.holds filter = true
  | _ => False

structure Silent (b b' : Broker) : Prop where
  storage : b'.storage = b.storage
  registry : b'.registry = b.registry
  exchange : b'.exchange = b.exchange
  stats : b'.stats = b.stats
  sessions : b'.sessions = b.sessions

/-- What there was is as it was, but for the session, the record of its client's id and the count of
subscriptions. A record that has been written is that of the session, with the filters left to
it. -/
structure Spares (b b' : Broker) (s : Session) : Prop where
  registry : b'.registry = b.registry
  sessions : ∀ w, w ≠ s.uid → b'.session? w = b.session? w
  namespaces : b'.namespaces = b.namespaces
  trees : ∀ space, b'.exchange.tree space = b.exchange.tree space
  storage : ∃ entries, b'.storage = { b.storage with entries }
  entries : ∀ key, key ≠ Session.key s.info.id →
    b'.storage.entries.get? key = b.storage.entries.get? key
  record : b'.storage.entries.get? (Session.key s.info.id) =
      b.storage.entries.get? (Session.key s.info.id) ∨
    s.info.cleanSession = true ∧ b'.storage.entries.get? (Session.key s.info.id) = none ∨
    s.info.cleanSession = false ∧ ∃ subscriptions,
      b'.storage.entries.get? (Session.key s.info.id) =
        some (Codec.Json.store (Codec.Json.ofSession { s.info with subscriptions }))
  stats : SignedWord.inRange b.stats.inflights.current = true →
    { b'.stats with subscriptions := b.stats.subscriptions } = b.stats

theorem Silent.refl (b : Broker) : Silent b b := ⟨rfl, rfl, rfl, rfl, rfl⟩

theorem silent_of_eq (same : b' = b) : Silent b b' := same ▸ .refl b'

theorem Silent.spares (silent : Silent b b') (s : Session) : Spares b b' s := by
  refine ⟨silent.registry, ?_, ?_, ?_, ⟨b.storage.entries, silent.storage⟩, ?_, ?_, ?_⟩
  · intro w _
    rw [session?, silent.sessions, session?]
  · rw [namespaces, silent.exchange, namespaces]
  · intro space
    rw [silent.exchange]
  · intro key _
    rw [silent.storage]
  · exact Or.inl (by rw [silent.storage])
  · intro _
    rw [silent.stats]

theorem doneAll_silent (b : Broker) (ids : List EventId) : Silent b (b.doneAll ids) := by
  obtain ⟨reported, connections, frame⟩ := b.doneAll_frame ids
  rw [frame]
  exact ⟨rfl, rfl, rfl, rfl, rfl⟩

theorem pushGranted_silent {uid : SessionUid} {s : Session} (present : b.session? uid = some s)
    (idle : s.queues = none) (event : EventId) (qos : QoS) :
    Silent b (b.pushGranted uid event qos) := by
  cases entered : b.events.event? event with
  | none =>
      simp only [pushGranted, present, entered]
      exact .refl b
  | some e =>
      simp only [pushGranted, present, entered, idle]
      exact b.doneAll_silent [event]

theorem push_silent {uid : SessionUid} {s : Session} (present : b.session? uid = some s)
    (idle : s.queues = none) (event : EventId) : Silent b (b.push uid event) := by
  unfold push
  split
  · split
    · exact pushGranted_silent present idle event _
    · exact b.doneAll_silent [event]
  · exact .refl b

theorem release_silent {uid : SessionUid} {s : Session} (present : b.session? uid = some s)
    (unbound : s.client = none) (conn : ConnectionId) : Silent b (b.release uid conn) := by
  simp only [release, present, unbound]
  exact .refl b

theorem destroy_silent {uid : SessionUid} {s : Session} (present : b.session? uid = some s)
    (closed : s.closed = true) (unlisted : ∀ id, b.registry.get? id ≠ some uid) :
    Silent b (b.destroy uid).1 := by
  simp only [destroy, present, unlisted, if_false]
  apply silent_of_eq
  rw [closeSession_closed]
  intro x here
  rw [present] at here
  cases here
  exact closed

theorem persist_spares {uid : SessionUid} {s : Session} (present : b.session? uid = some s)
    (done : b.persist uid = .ok b') :
    Spares b b' s ∧ b'.exchange = b.exchange ∧ b'.stats = b.stats := by
  rcases persist_changes done with rfl | ⟨x, entries, here, entries', rfl⟩
  · exact ⟨(Silent.refl b').spares s, rfl, rfl⟩
  · rw [present] at here
    cases here
    refine ⟨⟨rfl, fun _ _ => rfl, rfl, fun _ => rfl, ⟨entries, rfl⟩, ?_, ?_, fun _ => rfl⟩,
      rfl, rfl⟩
    · intro key other
      rcases entries' with ⟨_, rfl⟩ | ⟨_, rfl⟩
      · rw [Table.get?_erase, if_neg other]
      · rw [Table.get?_insert, if_neg other]
    · rcases entries' with ⟨clean, rfl⟩ | ⟨clean, rfl⟩
      · exact Or.inr (Or.inl ⟨clean, by rw [Table.get?_erase, if_pos rfl]⟩)
      · exact Or.inr (Or.inr ⟨clean, s.info.subscriptions, by rw [Table.get?_insert, if_pos rfl]⟩)

theorem subscribe_closed {uid : SessionUid} {s : Session} (present : b.session? uid = some s)
    (closed : s.closed = true) (filter : String) (qos : QoS) :
    ∃ e, b.subscribe uid filter qos = .error e := by
  unfold subscribe
  rw [present]
  cases Topic.parse filter with
  | error e => exact ⟨_, rfl⟩
  | ok topic =>
      dsimp only
      rw [if_pos closed]
      exact ⟨_, rfl⟩

theorem subscribeAll_closed {uid : SessionUid} {s : Session} (present : b.session? uid = some s)
    (closed : s.closed = true) (grants : Grants) (requests : List (String × QoS)) :
    (subscribeAll uid grants requests b).1 = b ∧
      ((∃ e, (subscribeAll uid grants requests b).2 = .error e) ∨
        ∀ r ∈ requests, b.allows uid grants r.1 = false) := by
  induction requests with
  | nil => exact ⟨rfl, Or.inr (fun _ member => nomatch member)⟩
  | cons request rest ih =>
      obtain ⟨filter, qos⟩ := request
      simp only [subscribeAll]
      split
      · obtain ⟨e, failed⟩ := subscribe_closed present closed filter (qos.lower .atLeastOnce)
        rw [failed]
        exact ⟨rfl, Or.inl ⟨e, rfl⟩⟩
      · rename_i refused
        refine ⟨ih.1, ih.2.imp ?_ ?_⟩
        · rintro ⟨e, failed⟩
          exact ⟨e, by rw [failed]; rfl⟩
        · intro others r member
          rcases List.mem_cons.mp member with rfl | later
          · simpa using refused
          · exact others r later

theorem requestSubscriptions_closed {uid : SessionUid} {s : Session}
    (present : b.session? uid = some s) (closed : s.closed = true) (grants : Grants)
    (requests : List (String × QoS)) :
    (b.requestSubscriptions uid grants requests).1 = b ∨
      (∀ r ∈ requests, b.allows uid grants r.1 = false) ∧
        b.persist uid = .ok (b.requestSubscriptions uid grants requests).1 := by
  obtain ⟨same, outcome⟩ := subscribeAll_closed present closed grants requests
  unfold requestSubscriptions
  generalize subscribeAll uid grants requests b = after at same outcome
  obtain ⟨next, result⟩ := after
  cases same
  cases result with
  | error e => exact Or.inl rfl
  | ok answer =>
      dsimp only
      cases stored : next.persist uid with
      | error e => exact Or.inl rfl
      | ok after =>
          refine Or.inr ⟨outcome.resolve_left ?_, rfl⟩
          rintro ⟨e, failed⟩
          cases failed

theorem unsubscribe_closed {uid : SessionUid} {s : Session} (present : b.session? uid = some s)
    (idle : s.queues = none) (empty : s.inflight.entries = []) {filter : String} {removed : Bool}
    (done : b.unsubscribe uid filter = .ok (b', removed)) :
    s.holds filter = false ∧ b' = b ∨ s.holds filter = true ∧
      ∃ exchange bound stats s', b' = ({ b with exchange, stats }).putSession s' ∧
        b.exchange.unbind filter s.uid = .ok (exchange, bound) ∧
        (SignedWord.inRange b.stats.inflights.current = true →
          { stats with subscriptions := b.stats.subscriptions } = b.stats) ∧
        s'.uid = s.uid ∧ s'.closed = s.closed ∧ s'.inflight.entries = [] ∧
        s'.info = { s.info with subscriptions := s.info.subscriptions.erase filter } := by
  simp only [unsubscribe, present] at done
  split at done
  · rename_i held
    refine Or.inr ⟨held, ?_⟩
    cases unbound : b.exchange.unbind filter s.uid with
    | error e =>
        simp only [dropSubscription, unbound] at done
        cases done
    | ok found =>
        obtain ⟨exchange, bound⟩ := found
        simp only [dropSubscription, unbound, Session.isSubscribed] at done
        cases last : List.isEmpty (s.info.subscriptions.erase filter) with
        | false =>
            simp only [last, Bool.not_false, if_true] at done
            cases done
            exact ⟨exchange, bound, _, _, rfl, rfl, fun _ => rfl, rfl, rfl, empty, rfl⟩
        | true =>
            simp only [last, closeQueues, idle, Bool.not_true, Bool.false_eq_true, if_false,
              if_true] at done
            cases done
            refine ⟨exchange, bound, _, _, rfl, rfl, fun word => ?_, rfl, rfl, rfl, rfl⟩
            -- the window is empty, so the gauge goes down by nothing
            simp only [Inflight.clear, empty, List.length_nil]
            rw [Int.natCast_zero, Gauge.subtract_zero word]
  · rename_i other
    cases done
    exact Or.inl ⟨by simpa using other, rfl⟩

structure Stripped (s s' : Session) : Prop where
  uid : s'.uid = s.uid
  closed : s'.closed = true
  empty : s'.inflight.entries = []
  info : s'.info = { s.info with subscriptions := s'.info.subscriptions }

theorem Stripped.trans {s s' s'' : Session} (first : Stripped s s') (second : Stripped s' s'') :
    Stripped s s'' := by
  refine ⟨second.uid.trans first.uid, second.closed, second.empty, ?_⟩
  rw [second.info, first.info]

theorem Spares.trans {s s' : Session} (first : Spares b b' s) (stripped : Stripped s s')
    (second : Spares b' b'' s') : Spares b b'' s := by
  have id : s'.info.id = s.info.id := by rw [stripped.info]
  have clean : s'.info.cleanSession = s.info.cleanSession := by rw [stripped.info]
  constructor
  case registry => exact second.registry.trans first.registry
  case sessions =>
    intro w other
    exact (second.sessions w (stripped.uid ▸ other)).trans (first.sessions w other)
  case namespaces => exact second.namespaces.trans first.namespaces
  case trees => exact fun space => (second.trees space).trans (first.trees space)
  case storage =>
    obtain ⟨_, earlier⟩ := first.storage
    obtain ⟨entries, later⟩ := second.storage
    exact ⟨entries, by rw [later, earlier]⟩
  case entries =>
    intro key other
    exact (second.entries key (id ▸ other)).trans (first.entries key other)
  case record =>
    have later := second.record
    rw [id, clean] at later
    rcases later with same | deleted | ⟨durable, subscriptions, written⟩
    · rw [same]
      exact first.record
    · exact Or.inr (Or.inl deleted)
    · refine Or.inr (Or.inr ⟨durable, subscriptions, ?_⟩)
      rw [written, stripped.info]
  case stats =>
    intro word
    have earlier := first.stats word
    have word' : SignedWord.inRange b'.stats.inflights.current = true := by
      rw [← earlier] at word
      exact word
    rw [← earlier, ← second.stats word']

theorem unsubscribe_spares (orderly : b.Orderly) {uid : SessionUid} {s : Session}
    (present : b.session? uid = some s) (closed : s.closed = true)
    (empty : s.inflight.entries = []) {filter : String} {removed : Bool}
    (done : b.unsubscribe uid filter = .ok (b', removed)) :
    s.holds filter = false ∧ b' = b ∨ s.holds filter = true ∧
      ∃ s', b'.session? uid = some s' ∧ Stripped s s' ∧ b'.storage = b.storage ∧
        Spares b b' s := by
  obtain ⟨rfl, _⟩ := orderly.own present
  obtain ⟨_, routed⟩ := orderly.routed
  refine (unsubscribe_closed present (orderly.idle present closed) empty done).imp_right ?_
  rintro ⟨held, exchange, bound, stats, s', rfl, unbound, counted, uid, same, empty', info⟩
  refine ⟨held, s', ?_, ⟨uid, same.trans closed, empty', by rw [info]⟩, rfl, ?_⟩
  · rw [session?_putSession, if_pos uid.symm]
  · refine ⟨rfl, ?_, Exchange.unbind_namespaces unbound, ?_, ⟨_, rfl⟩, fun _ _ => rfl, Or.inl rfl,
      counted⟩
    · intro w other
      rw [session?_putSession, if_neg (uid ▸ other)]
      rfl
    · exact Exchange.tree_unbind_unbound routed.neat unbound (orderly.unbound present closed)

theorem unsubscribeAll_spares (orderly : b.Orderly) {uid : SessionUid} {s : Session}
    (present : b.session? uid = some s) (closed : s.closed = true)
    (empty : s.inflight.entries = []) (filters : List String) :
    ∃ s', (unsubscribeAll uid filters b).1.session? uid = some s' ∧ Stripped s s' ∧
      (unsubscribeAll uid filters b).1.storage = b.storage ∧
      Spares b (unsubscribeAll uid filters b).1 s ∧
      ((∀ filter ∈ filters, s.holds filter = false) → (unsubscribeAll uid filters b).1 = b) := by
  -- the session goes on with fewer filters, closed as before
  induction filters generalizing b s with
  | nil =>
      exact ⟨s, present, ⟨rfl, closed, empty, rfl⟩, rfl, (Silent.refl b).spares s, fun _ => rfl⟩
  | cons filter rest ih =>
      simp only [unsubscribeAll]
      split
      · rename_i b' removed done
        rcases unsubscribe_spares orderly present closed empty done with
          ⟨_, rfl⟩ | ⟨held, s', present', stripped, storage, spares⟩
        · obtain ⟨s', present', stripped, storage, spares, still⟩ :=
            ih orderly present closed empty
          exact ⟨s', present', stripped, storage, spares,
            fun none => still fun f member => none f (List.mem_cons_of_mem _ member)⟩
        · obtain ⟨s'', present'', further, storage', later, _⟩ :=
            ih (orderly.unsubscribe done) present' stripped.closed stripped.empty
          refine ⟨s'', present'', stripped.trans further, storage'.trans storage,
            spares.trans stripped later, fun none => ?_⟩
          rw [none filter (List.mem_cons_self ..)] at held
          cases held
      · exact ⟨s, present, ⟨rfl, closed, empty, rfl⟩, rfl, (Silent.refl b).spares s, fun _ => rfl⟩

theorem requestUnsubscriptions_spares (orderly : b.Orderly) {uid : SessionUid} {s : Session}
    (present : b.session? uid = some s) (closed : s.closed = true)
    (empty : s.inflight.entries = []) (filters : List String) :
    Spares b (b.requestUnsubscriptions uid filters).1 s ∧
      ((∀ filter ∈ filters, s.holds filter = false) →
        (b.requestUnsubscriptions uid filters).1.exchange = b.exchange ∧
          (b.requestUnsubscriptions uid filters).1.stats = b.stats) := by
  obtain ⟨s', present', stripped, _, spares, still⟩ :=
    unsubscribeAll_spares orderly present closed empty filters
  unfold requestUnsubscriptions
  generalize unsubscribeAll uid filters b = after at present' spares still
  obtain ⟨next, result⟩ := after
  have kept : (∀ filter ∈ filters, s.holds filter = false) →
      next.exchange = b.exchange ∧ next.stats = b.stats := by
    intro none
    rw [show next = b from still none]
    exact ⟨rfl, rfl⟩
  cases result with
  | error e => exact ⟨spares, kept⟩
  | ok _ =>
      dsimp only
      split
      · rename_i last stored
        obtain ⟨written, exchange, stats⟩ := persist_spares present' stored
        refine ⟨spares.trans stripped written, fun none => ?_⟩
        exact ⟨exchange.trans (kept none).1, stats.trans (kept none).2⟩
      · exact ⟨spares, kept⟩

theorem late_spares (orderly : b.Orderly) {uid : SessionUid} {s : Session}
    (present : b.session? uid = some s) (closed : s.closed = true)
    (empty : s.inflight.entries = []) (call : LateCall) :
    Spares b (b.late uid call) s ∧
      (¬call.Persists b uid → (b.late uid call).storage = b.storage) ∧
      (¬call.Drops s →
        (b.late uid call).exchange = b.exchange ∧ (b.late uid call).stats = b.stats) := by
  obtain ⟨own, _⟩ := orderly.own present
  have idle := orderly.idle present closed
  have whole : ∀ {b'}, Silent b b' → Spares b b' s ∧
      (¬call.Persists b uid → b'.storage = b.storage) ∧
      (¬call.Drops s → b'.exchange = b.exchange ∧ b'.stats = b.stats) := by
    intro b' still
    exact ⟨still.spares s, fun _ => still.storage, fun _ => ⟨still.exchange, still.stats⟩⟩
  cases call with
  | subscribe grants requests =>
      rcases requestSubscriptions_closed present closed grants requests with same | ⟨refused, done⟩
      · exact whole (silent_of_eq same)
      · obtain ⟨spares, exchange, stats⟩ := persist_spares present done
        exact ⟨spares, fun quiet => absurd refused quiet, fun _ => ⟨exchange, stats⟩⟩
  | unsubscribe filters =>
      obtain ⟨spares, kept⟩ := requestUnsubscriptions_spares orderly present closed empty filters
      refine ⟨spares, fun quiet => absurd trivial quiet, fun none => kept fun filter member => ?_⟩
      simp only [LateCall.Drops, not_exists, not_and, Bool.not_eq_true] at none
      exact none filter member
  | persist =>
      cases done : b.persist uid with
      | error e =>
          have same : b.late uid .persist = b := congrArg (fun r => r.toOption.getD b) done
          exact whole (silent_of_eq same)
      | ok b' =>
          have same : b.late uid .persist = b' := congrArg (fun r => r.toOption.getD b) done
          obtain ⟨spares, exchange, stats⟩ := persist_spares present done
          rw [same]
          exact ⟨spares, fun quiet => absurd trivial quiet, fun _ => ⟨exchange, stats⟩⟩
  | push event => exact whole (push_silent present idle event)
  | pushGranted event qos => exact whole (pushGranted_silent present idle event qos)
  | release conn => exact whole (release_silent present (orderly.gone uid s present closed) conn)
  | destroy => exact whole (destroy_silent present closed (orderly.unlisted present closed))

end Broker

namespace History

/-- The step closes the session for good. It is destroyed, or clean and left by its connection, or a
new client comes with its client's id and one of the two is clean. -/
inductive Closes (b : Broker) (uid : SessionUid) : Act → Prop
  | destroyed {s} : b.session? uid = some s → s.closed = false → Closes b uid (.destroy uid)
  | released {s conn} : b.shuttingDown = false → b.session? uid = some s → s.client = some conn →
      s.info.cleanSession = true → Closes b uid (.release uid conn)
  | replaced {s c conn unique} : b.shuttingDown = false → b.find? c.id = some s → s.uid = uid →
      c.clean = true ∨ s.info.cleanSession = true → Closes b uid (.attach c conn unique)
  | connected {s c grants p commonName uuid peer} : b.shuttingDown = false →
      b.checkConnect p commonName uuid = .ok (c, grants) →
      b.find? c.id = some s → s.uid = uid → c.clean = true ∨ s.info.cleanSession = true →
      Closes b uid (.connect p commonName uuid peer)

theorem replaced_gone {b : Broker} (orderly : b.Orderly) (running : b.shuttingDown = false)
    {c : Broker.Claim} {s : Session} (found : b.find? c.id = some s)
    (clean : c.clean = true ∨ s.info.cleanSession = true) (conn : Option ConnectionId)
    (unique : Bool) : (b.claim c conn unique).1.Gone s.uid := by
  obtain ⟨uid, entry, present⟩ := Option.bind_eq_some_iff.mp found
  obtain ⟨x, here, _, live⟩ := orderly.live c.id uid entry
  rw [present] at here
  cases here
  obtain ⟨rfl, _⟩ := orderly.own present
  have gone := Broker.destroy_gone orderly present live
  exact (Broker.claim_replaces [] [] orderly running found clean conn unique).gone
    (orderly.destroy s.uid) gone

theorem step_gone {h : History} (orderly : h.broker.Orderly) {uid : SessionUid} {a : Act}
    (closes : Closes h.broker uid a) : (h.step a).broker.Gone uid := by
  cases closes with
  | destroyed present live =>
      obtain ⟨rfl, _⟩ := orderly.own present
      exact Broker.destroy_gone orderly present live
  | released running present bound clean =>
      rename_i s conn
      obtain ⟨rfl, _⟩ := orderly.own present
      have live : s.closed = false := by
        cases closed : s.closed with
        | false => rfl
        | true =>
            rw [orderly.gone s.uid s present closed] at bound
            cases bound
      exact Broker.release_gone orderly present live bound clean running
  | replaced running found own clean =>
      rename_i s c conn unique
      subst own
      exact replaced_gone orderly running found clean conn unique
  | connected running checked found own clean =>
      rename_i s c grants p commonName uuid peer
      subst own
      have gone := replaced_gone
        (b := h.broker.newConnection.1.putConnection { id := h.broker.newConnection.2, peer })
        (orderly.beside ⟨rfl, rfl, rfl, rfl, rfl, rfl⟩ rfl) running found clean
        (some h.broker.newConnection.2) true
      have asked : h.broker.newConnection.1.checkConnect p commonName uuid = .ok (c, grants) :=
        checked
      simp only [step, Broker.acceptClient, asked]
      generalize Broker.claim _ c (some h.broker.newConnection.2) true = after at gone ⊢
      obtain ⟨next, result⟩ := after
      cases result <;> exact gone

/-- Once a session has been closed for good, whatever happened before and happens since, a call that
is still made with it leaves the registry, the buckets, the routing and all other sessions and
records as they are. If it neither persists the session nor drops a filter, it changes nothing at
all in storage, exchange and gauges. -/
theorem late_calls_spare {settings : Settings} {storage : Storage.Memory} {now : Nat}
    {clock : Int64} {h : History} (restorable : storage.Restorable)
    (begun : Broker.start settings storage now clock = .ok h.broker) (before : List Act) {a : Act}
    {uid : SessionUid} (closes : Closes (h.run before).broker uid a) (after : List Act) {b : Broker}
    (reached : b = (((h.run before).step a).run after).broker) :
    ∃ s, b.session? uid = some s ∧ s.closed = true ∧ ∀ call : Broker.LateCall,
      b.Spares (b.late uid call) s ∧
      (¬call.Persists b uid → (b.late uid call).storage = b.storage) ∧
      (¬call.Drops s →
        (b.late uid call).exchange = b.exchange ∧ (b.late uid call).stats = b.stats) := by
  have resumed := Broker.start_resumed restorable begun
  have ready := (run_continues resumed.orderly before).changes.orderly resumed.orderly
  have closed := (step_continues ready a).changes.orderly ready
  have future := run_continues closed after
  rw [reached]
  obtain ⟨s, present, gone, empty⟩ := future.changes.gone closed (step_gone ready closes)
  exact ⟨s, present, gone, Broker.late_spares (future.changes.orderly closed) present gone empty⟩

def oneSubscription : History :=
  run { broker := .new {} {} 0 0, clients := [⟨1, none, .everything⟩] }
    [.attach { id := "c", clean := false } none true, .subscribe 0 [("t", .atLeastOnce)]]

theorem oneSubscription_destroyed :
    Closes oneSubscription.broker 1 (.destroy 1) ∧ ∃ s,
      (oneSubscription.step (.destroy 1)).broker.session? 1 = some s ∧ s.closed = true ∧
      ∀ call : Broker.LateCall,
        (oneSubscription.step (.destroy 1)).broker.Spares
          ((oneSubscription.step (.destroy 1)).broker.late 1 call) s := by
  have closes : Closes oneSubscription.broker 1 (.destroy 1) := .destroyed rfl rfl
  obtain ⟨s, present, closed, spares⟩ := late_calls_spare
    (h := { broker := .new {} {} 0 0, clients := [⟨1, none, .everything⟩] })
    Storage.Memory.restorable_empty rfl _ closes [] rfl
  exact ⟨closes, s, present, closed, fun call => (spares call).1⟩

/-- A session that has been destroyed is recorded again when it is unsubscribed, and the count of
subscriptions falls below zero. -/
theorem oneSubscription_recorded :
    (oneSubscription.step (.destroy 1)).broker.storage.entries = [] ∧
      (oneSubscription.step (.destroy 1)).broker.stats.subscriptions.current = 0 ∧
      ((oneSubscription.step (.destroy 1)).broker.late 1
        (.unsubscribe ["t"])).storage.entries.keys = ["session/c"] ∧
      ((oneSubscription.step (.destroy 1)).broker.late 1
        (.unsubscribe ["t"])).stats.subscriptions.current = -1 := by
  decide

end History

end MqttBroker
