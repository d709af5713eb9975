import MqttBroker.Proofs.Conduct

/-!
The gauges tell the truth. They show how many connections are served, how many sessions are
registered, what these have in flight and how many messages are retained, from the start until the
sessions are closed; and how many subscriptions there are, as long as no session has two filters
with one place, and none that is closed is unsubscribed.
-/

namespace MqttBroker

namespace Broker

variable {b b' b'' : Broker}

/-! Unsubscribing -/

def relieved (b : Broker) (s : Session) : Broker × Session :=
  if s.isSubscribed then (b, s) else b.closeQueues s true

theorem relieved_counts (b : Broker) (s : Session) :
    ∃ queues inflight, (b.relieved s).2 = { s with queues, inflight } ∧
      (b.relieved s).1.sessions = b.sessions ∧ (b.relieved s).1.standing = b.standing ∧
      (queues = s.queues ∧ inflight = s.inflight ∧
          (b.relieved s).1.stats.inflights = b.stats.inflights ∨
        queues = none ∧ inflight.entries = [] ∧ (b.relieved s).1.stats.inflights =
          b.stats.inflights.subtract s.inflight.entries.length) := by
  unfold relieved
  split
  · exact ⟨s.queues, s.inflight, rfl, rfl, rfl, Or.inl ⟨rfl, rfl, rfl⟩⟩
  · obtain ⟨events, reported, connections, stats, inflight, cleared, closed⟩ :=
      b.closeQueues_changes s true
    have shown := b.closeQueues_stats s
    rw [closed] at shown ⊢
    dsimp only at shown
    rw [shown]
    exact ⟨none, inflight, rfl, rfl, rfl, Or.inr ⟨rfl, cleared rfl, rfl⟩⟩

theorem unsubscribe_relieved {uid : SessionUid} {filter : String} {removed : Bool}
    (done : b.unsubscribe uid filter = .ok (b', removed)) :
    b' = b ∧ removed = false ∨ ∃ s exchange bound matcher, b.session? uid = some s ∧
      s.holds filter = true ∧ removed = true ∧
      b.exchange.unbind filter s.uid = .ok (exchange, bound) ∧
      ∃ start fewer, start = { b with exchange, stats := { b.stats with
          subscriptions := b.stats.subscriptions.decrement } } ∧
        fewer = { s with matcher, info := { s.info with
          subscriptions := s.info.subscriptions.erase filter } } ∧
        b' = (relieved start fewer).1.putSession (relieved start fewer).2 := by
  unfold unsubscribe at done
  split at done
  · cases done
    exact Or.inl ⟨rfl, rfl⟩
  · rename_i s present
    split at done
    · rename_i held
      cases unbound : b.exchange.unbind filter s.uid with
      | error e =>
          simp only [dropSubscription, unbound] at done
          cases done
      | ok found =>
          obtain ⟨exchange, bound⟩ := found
          simp only [dropSubscription, unbound] at done
          cases done
          exact Or.inr ⟨s, exchange, bound, _, present, held, rfl, unbound, _, _, rfl, rfl, rfl⟩
    · cases done
      exact Or.inl ⟨rfl, rfl⟩

theorem unbind_spaces {x x' : Exchange} {filter : String} {uid : SessionUid} {removed : Bool}
    (increasing : x.spaces.Increasing) (unbound : x.unbind filter uid = .ok (x', removed)) :
    x'.spaces.Increasing := by
  obtain ⟨p, _, rfl⟩ := Exchange.unbind_place unbound
  cases p.1 with
  | none => exact increasing
  | some space => exact increasing.insert space _

/-- What is bound is what is held, if nothing that is held shares its place with what was
dropped. -/
theorem Routed.undivided {dropped : List (SessionUid × String)} (routed : b.Routed dropped)
    (whole : ∀ uid filter, b.Holds uid filter → ¬b.Divided dropped uid filter) : b.Routed [] where
  own := routed.own
  parsed := routed.parsed
  kept _ _ _ member := nomatch member
  neat := routed.neat
  bound p uid := by
    have none : ∀ filter, ¬b.Divided [] uid filter := by
      rintro filter ⟨_, member, _⟩
      cases member
    rw [routed.bound]
    constructor
    · rintro ⟨filter, held, placed, _⟩
      exact ⟨filter, held, placed, none filter⟩
    · rintro ⟨filter, held, placed, _⟩
      exact ⟨filter, held, placed, whole uid filter held⟩

/-- The session is closed, and has kept one of the filters. -/
def Late (b : Broker) (uid : SessionUid) (filters : List String) : Prop :=
  ∃ s ∈ b.session? uid, s.closed = true ∧ ∃ filter ∈ filters, s.holds filter = true

structure Sheds (b : Broker) (uid : SessionUid) (filters : List String) (b' : Broker) : Prop where
  reckoned : b'.Reckoned
  namespaces : b'.namespaces = b.namespaces
  shrunk : ∀ w s', b'.session? w = some s' → ∃ s, b.session? w = some s ∧ s'.closed = s.closed ∧
    ∀ filter, s'.holds filter = true → s.holds filter = true
  subscribed : ¬b.Late uid filters → b.Unconfused → b.Subscribed → b'.Subscribed

theorem Sheds.refl (reckoned : b.Reckoned) (uid : SessionUid) (filters : List String) :
    Sheds b uid filters b :=
  ⟨reckoned, rfl, fun _ s present => ⟨s, present, rfl, fun _ held => held⟩,
    fun _ _ subscribed => subscribed⟩

theorem Sheds.unconfused {uid : SessionUid} {filters : List String} (sheds : Sheds b uid filters b')
    (unconfused : b.Unconfused) : b'.Unconfused := by
  intro w s' filter other here first second
  obtain ⟨s, there, _, held⟩ := sheds.shrunk w s' here
  rw [sheds.namespaces]
  exact unconfused w s filter other there (held filter first) (held other second)

theorem Sheds.late {uid : SessionUid} {filters later : List String}
    (sheds : Sheds b uid filters b') (late : b'.Late uid later) : b.Late uid later := by
  obtain ⟨s', here, gone, filter, member, held'⟩ := late
  obtain ⟨s, there, closed, held⟩ := sheds.shrunk uid s' here
  exact ⟨s, there, closed.symm.trans gone, filter, member, held filter held'⟩

theorem Sheds.trans {uid : SessionUid} {filters later : List String}
    (first : Sheds b uid filters b') (second : b'.Reckoned → Sheds b' uid later b'') :
    Sheds b uid (filters ++ later) b'' := by
  have second := second first.reckoned
  have sooner : ∀ {part : List String}, part ⊆ filters ++ later → b.Late uid part →
      b.Late uid (filters ++ later) := by
    rintro part inside ⟨s, there, gone, filter, member, held⟩
    exact ⟨s, there, gone, filter, inside member, held⟩
  refine ⟨second.reckoned, second.namespaces.trans first.namespaces, ?_, ?_⟩
  · intro w s'' here
    obtain ⟨s', there, closed', held'⟩ := second.shrunk w s'' here
    obtain ⟨s, before, closed, held⟩ := first.shrunk w s' there
    exact ⟨s, before, closed'.trans closed, fun filter has => held filter (held' filter has)⟩
  · intro timely unconfused subscribed
    have now := first.subscribed (fun late => timely (sooner (List.subset_append_left ..) late))
      unconfused subscribed
    refine second.subscribed (fun late => timely ?_) (first.unconfused unconfused) now
    exact sooner (List.subset_append_right ..) (first.late late)

theorem Ordered.unsubscribes (ordered : b.Ordered) {uid : SessionUid} {filter : String}
    {removed : Bool} (done : b.unsubscribe uid filter = .ok (b', removed)) :
    b' = b ∨ ∃ s s' : Session, s.uid = uid ∧ removed = true ∧ b.session? s.uid = some s ∧
      s.holds filter = true ∧ s.Remains s' ∧
      (∀ other, s'.holds other = true → s.holds other = true) ∧
      s'.info.subscriptions.length + 1 = s.info.subscriptions.length ∧
      b'.sessions = b.sessions.insert s.uid s' ∧
      (b.exchange.spaces.Increasing → b'.exchange.spaces.Increasing) ∧
      b'.namespaces = b.namespaces ∧
      b'.standing = { b with exchange := b'.exchange, stats := { b.stats with
        subscriptions := b.stats.subscriptions.decrement } }.standing ∧
      ∀ others, b.stats.inflights.Shows (others + s.inflight.entries.length) →
        b'.stats.inflights.Shows (others + s'.inflight.entries.length) := by
  obtain ⟨rfl, _⟩ | ⟨s, exchange, bound, matcher, present, held, rfl, unbound, start, fewer, begun,
    dropped, after⟩ := unsubscribe_relieved done
  · exact Or.inl rfl
  obtain ⟨rfl, _⟩ := ordered.own uid s present
  obtain ⟨queues, inflight, rest, sessions, standing, gauge⟩ := relieved_counts start fewer
  rw [rest] at after
  have exchanged : b'.exchange = exchange := by
    rw [after]
    exact ((standing_eq standing).2.1).trans (by rw [begun])
  have shorter : (s.info.subscriptions.erase filter).length + 1 = s.info.subscriptions.length := by
    have counted := (ordered.kempt _ _ present).filters.length_erase filter
    obtain ⟨qos, found⟩ := Option.isSome_iff_exists.mp held
    rwa [found, Option.toList_some, List.length_singleton] at counted
  refine Or.inr ⟨s, { fewer with queues, inflight }, rfl, rfl, present, held, ?_, ?_, ?_, ?_, ?_,
    ?_, ?_, ?_⟩
  · rw [dropped]
    refine ⟨rfl, rfl, rfl, fun kempt => ⟨fun gone => ?_, ?_, kempt.filters.erase filter⟩⟩
    · obtain ⟨idle, empty⟩ := kempt.idle gone
      rcases gauge with ⟨kept, window, _⟩ | ⟨none, window, _⟩
      · exact ⟨kept.trans (by rw [dropped]; exact idle), by rw [window, dropped]; exact empty⟩
      · exact ⟨none, window⟩
    · rcases gauge with ⟨_, window, _⟩ | ⟨_, window, _⟩
      · rw [window, dropped]
        exact kempt.ordered
      · exact Inflight.ordered_empty window
  · intro other holds
    rw [Session.holds, dropped, Session.holds_erase, Bool.and_eq_true] at holds
    exact holds.2
  · rw [dropped]
    exact shorter
  · rw [after, putSession, sessions, begun, dropped]
  · rw [exchanged]
    exact fun increasing => unbind_spaces increasing unbound
  · rw [namespaces, exchanged]
    exact Exchange.unbind_namespaces unbound
  · rw [exchanged, ← begun, ← standing, after]
    rfl
  · intro others shows
    have stood : start.stats.inflights = b.stats.inflights := by rw [begun]
    have kept : fewer.inflight = s.inflight := by rw [dropped]
    have shown : b'.stats.inflights = (start.relieved fewer).1.stats.inflights := by
      rw [after]
      rfl
    rcases gauge with ⟨_, window, same⟩ | ⟨_, window, same⟩
    · rw [shown, same, stood]
      dsimp only
      rw [window, kept]
      exact shows
    · rw [shown, same, stood, kept]
      dsimp only
      rw [window]
      exact shows.subtract rfl

theorem Reckoned.unsubscribe_sheds (reckoned : b.Reckoned) {uid : SessionUid} {filter : String}
    {removed : Bool} (done : b.unsubscribe uid filter = .ok (b', removed)) :
    Sheds b uid [filter] b' := by
  obtain rfl | ⟨s, s', rfl, rfl, present, held, remains, fewer, shorter, sessions, spaces,
    namespaces, standing, gauge⟩ := reckoned.unsubscribes done
  · exact .refl reckoned uid [filter]
  have found := session?_inserted sessions
  have inflights := reckoned.inFlight_shown present remains sessions gauge
  refine ⟨reckoned.reformed present remains sessions (spaces reckoned.spaces) standing rfl rfl
    inflights, namespaces, ?_, ?_⟩
  · intro w x here
    rw [found] at here
    split at here
    · rename_i own
      cases here
      exact ⟨s, own ▸ present, remains.closed, fewer⟩
    · exact ⟨x, here, rfl, fun _ held => held⟩
  · intro timely unconfused subscribed
    have live : s.closed = false := by
      by_contra gone
      exact timely ⟨s, present, by simpa using gone, filter, List.mem_singleton_self _, held⟩
    have gauge := (standing_eq standing).2.2.2.2.2.2.2
    refine ⟨(subscribed.routed.unsubscribe done).undivided ?_, ?_⟩
    · rintro w g has ⟨other, member, confuses⟩
      obtain ⟨rfl, rfl⟩ := Prod.mk.inj (List.mem_singleton.mp member)
      obtain ⟨x, here, _, held'⟩ := has
      rw [found, if_pos rfl] at here
      cases here
      rw [namespaces] at confuses
      exact unconfused s.uid s g other present (fewer g held') held confuses
    · rw [gauge]
      have changed : b'.subscribed + _ = b.subscribed + _ :=
        reckoned.tally_live present sessions live (remains.closed.trans live) rfl rfl
      exact subscribed.shown.decrement (by omega)

theorem Reckoned.unsubscribeAll_sheds (reckoned : b.Reckoned) (uid : SessionUid)
    (filters : List String) : Sheds b uid filters (unsubscribeAll uid filters b).1 := by
  induction filters generalizing b with
  | nil => exact .refl reckoned uid []
  | cons filter rest ih =>
      simp only [unsubscribeAll]
      split
      · rename_i next _ done
        exact (reckoned.unsubscribe_sheds done).trans fun reckoned' => ih reckoned'
      · exact .refl reckoned uid (filter :: rest)

/-! Moves -/

/-- Nothing that is counted is lost in a move; and neither are subscriptions, if no session that is
closed drops what it has kept and no session has two filters with one place, before and after. -/
theorem Conducts.accounts {dropped : Option (SessionUid × List String)}
    (conducts : Conducts b dropped b') (reckoned : b.Reckoned) :
    b'.Reckoned ∧ ((∀ d ∈ dropped, ¬b.Late d.1 d.2) → b.Unconfused → b'.Unconfused →
      b.Subscribed → b'.Subscribed) := by
  obtain ⟨start, same, deeds⟩ := conducts
  have begun := reckoned.counts_counted same
  obtain ⟨sessions, _, standing⟩ := counted_eq same
  have found := session?_beside sessions
  have unconfused : b.Unconfused → start.Unconfused := by
    unfold Unconfused
    rw [found, begun.namespaces]
    exact id
  cases dropped with
  | none =>
      have counts := deeds.counts begun.reckoned
      refine ⟨counts.reckoned, fun _ before after subscribed => ?_⟩
      exact counts.subscribed after (begun.subscribed (unconfused before) subscribed)
  | some d =>
      have sheds := begun.reckoned.unsubscribeAll_sheds d.1 d.2
      have counts := deeds.counts sheds.reckoned
      refine ⟨counts.reckoned, fun timely before after subscribed => ?_⟩
      have timely : ¬start.Late d.1 d.2 := by
        unfold Late
        rw [found]
        exact timely d rfl
      exact counts.subscribed after (sheds.subscribed timely (unconfused before)
        (begun.subscribed (unconfused before) subscribed))

/-! The start -/

structure Begun (b : Broker) : Prop extends Totalled b, Subscribed b where
  opened : ∀ uid s, b.session? uid = some s → s.closed = false
  length : b.sessions.length + 1 = b.nextUid
  roll : b.registry.Increasing

def restored (b : Broker) :=
  (b.sessions, b.exchange, b.nextUid, b.served, b.retain, b.stats.connections, b.stats.inflights,
    b.stats.subscriptions)

theorem Begun.beside (begun : b.Begun) (same : b'.restored = b.restored)
    (roll : b'.registry.Increasing) : b'.Begun := by
  simp only [restored, Prod.mk.injEq] at same
  obtain ⟨sessions, exchange, nextUid, served, retain, connections, inflights, subscriptions⟩ :=
    same
  have totalled : b'.Totalled := by
    refine ⟨begun.toOrdered.beside sessions nextUid, exchange ▸ begun.spaces,
      retain ▸ begun.messages, ?_, ?_, retain ▸ begun.retained⟩
    · rw [connections, served]
      exact begun.connections
    · rw [inflights, inFlight, tally_beside sessions]
      exact begun.inflights
  have subscribed := begun.toSubscribed.beside sessions nextUid exchange subscriptions
  exact { totalled, subscribed with
    opened := session?_beside sessions ▸ begun.opened
    length := by rw [sessions, nextUid]; exact begun.length
    roll }

theorem Begun.added (begun : b.Begun) (info : SessionInfo) :
    (({ b with nextUid := b.nextUid + 1 }).putSession
      (Session.new b.nextUid { info with subscriptions := [] } b.settings.mqtt)).Begun := by
  let s := Session.new b.nextUid { info with subscriptions := [] } b.settings.mqtt
  let next : Broker := ({ b with nextUid := b.nextUid + 1 }).putSession s
  have kempt : s.Kempt := by
    refine ⟨fun gone => ?_, Inflight.ordered_empty rfl, List.Pairwise.nil⟩
    cases gone
  have unused : b.session? s.uid = none := session?_unused begun.own
  have sessions : next.sessions = b.sessions.insert s.uid s := rfl
  have found := session?_inserted sessions
  have same : ∀ f : Session → Nat, f s = 0 → next.tally f = b.tally f := by
    intro f none
    rw [begun.tally_added unused sessions f, Session.weight_live rfl, none, Nat.add_zero]
  have ordered : next.Ordered := begun.toOrdered.added rfl kempt sessions rfl
  have totalled : next.Totalled := by
    refine ⟨ordered, begun.spaces, begun.messages, begun.connections, ?_, begun.retained⟩
    rw [inFlight, same _ rfl]
    exact begun.inflights
  have holds : ∀ uid filter, next.Holds uid filter ↔ b.Holds uid filter := by
    intro uid filter
    unfold Holds
    rw [found]
    split
    · rename_i new
      rw [new, unused]
      simp [s, Session.new, Session.holds, Table.contains, Table.get?]
    · rfl
  have subscribed : next.Subscribed := by
    refine ⟨begun.routed.unchanged ordered.own holds rfl, ?_⟩
    rw [Broker.subscribed, same _ rfl]
    exact begun.shown
  refine { totalled, subscribed with
    opened := fun w x here => ?_, length := ?_, roll := begun.roll }
  · rw [found] at here
    split at here
    · cases here
      rfl
    · exact begun.opened w x here
  · have longer := begun.sessions.length_insert s.uid s
    rw [session?] at unused
    rw [unused] at longer
    exact congrArg (· + 1) (longer.trans begun.length)

theorem Begun.subscribe (begun : b.Begun) {uid : SessionUid} {filter : String} {qos : QoS}
    {added : Bool} (done : b.subscribe uid filter qos = .ok (b', added)) : b'.Begun := by
  have totalled := begun.toTotalled.subscribe done
  have subscribed := begun.toSubscribed.subscribe begun.toOrdered done
  obtain ⟨s, s', present, _, live', _, _, _, _, sessions, _, _, standing⟩ := begun.subscribes done
  obtain ⟨registry, _, nextUid, _⟩ := standing_eq standing
  have found := session?_inserted sessions
  refine { totalled, subscribed with
    opened := fun w x here => ?_, length := ?_, roll := registry ▸ begun.roll }
  · rw [found] at here
    split at here
    · cases here
      exact live'
    · exact begun.opened w x here
  · have longer := begun.sessions.length_insert s.uid s'
    rw [session?] at present
    rw [present, Option.toList_some, List.length_singleton] at longer
    rw [sessions, nextUid, Nat.add_right_cancel longer]
    exact begun.length

theorem enroll_restored {id : String} {uid : SessionUid} (done : b.enroll id uid = .ok b') :
    b'.restored = b.restored ∧ b'.registry = b.registry.insert id uid ∧
      b'.stats.sessions = b.stats.sessions.increment := by
  simp only [enroll] at done
  split at done
  · cases done
    exact ⟨rfl, rfl, rfl⟩
  · simp only [bind_eq_ok, mapError_eq_ok] at done
    obtain ⟨⟨storage, h⟩, _, _, emptied, done⟩ := done
    cases emptied
    cases done
    exact ⟨rfl, rfl, rfl⟩

theorem startKeeps_begun : StartKeeps Begun where
  added info begun := begun.added info
  subscribed begun done := begun.subscribe done
  recorded begun stored := by
    rcases persist_changes stored with rfl | ⟨_, _, _, _, rfl⟩
    · exact begun
    · exact begun.beside rfl begun.roll
  enrolled begun done := by
    obtain ⟨same, registry, _⟩ := enroll_restored done
    exact begun.beside same (registry ▸ begun.roll.insert _ _)
  deleted begun _ := begun.beside rfl begun.roll

theorem load_messages {r r' : RetainStore} {m : Storage.Memory} (increasing : r.messages.Increasing)
    (done : r.load m = .ok r') :
    r'.messages.Increasing ∧ r'.gauge.Shows r'.messages.length := by
  have entered : ∀ (records : List RetainedRecord) (t : Table String Publish), t.Increasing →
      (records.foldl (fun t r => t.insert r.topic r.message) t).Increasing := by
    intro records
    induction records with
    | nil => exact fun _ increasing => increasing
    | cons record rest ih => exact fun t increasing => ih _ (increasing.insert _ _)
  simp only [RetainStore.load, bind_eq_ok] at done
  obtain ⟨entries, _, same⟩ := done
  cases same
  exact ⟨entered _ _ increasing, Gauge.shows_set ..⟩

theorem new_begun (settings : Settings) (storage : Storage.Memory) (now : Nat) (clock : Int64)
    {retain : RetainStore}
    (loaded : (Broker.new settings storage now clock).retain.load storage = .ok retain) :
    Begun { Broker.new settings storage now clock with retain } := by
  have none : (Broker.new settings storage now clock).retain.messages.Increasing :=
    List.Pairwise.nil
  obtain ⟨messages, retained⟩ := load_messages none loaded
  have routed := Routed.new settings storage now clock
  have empty : ∀ g : Gauge, g = {} → g.Shows 0 := by
    rintro _ rfl
    exact ⟨rfl, fun _ => rfl⟩
  have ordered : ({ Broker.new settings storage now clock with retain } : Broker).Ordered :=
    ⟨fun _ _ present => (nomatch present), fun _ _ present => (nomatch present),
      List.Pairwise.nil⟩
  exact {
    toOrdered := ordered
    spaces := List.Pairwise.nil
    messages
    connections := empty _ rfl
    inflights := empty _ rfl
    retained
    routed := routed.unchanged routed.own (fun _ _ => Iff.rfl) rfl
    shown := empty _ rfl
    opened := fun _ _ present => (nomatch present)
    length := rfl
    roll := List.Pairwise.nil }

/-! The gauge of the sessions while they are restored -/

theorem restoreSubscriptions_registered {uid : SessionUid} {grants : Option Grants}
    {entries : Table String QoS} {dropped : Nat}
    (done : restoreSubscriptions uid grants entries b = .ok (b', dropped)) :
    b'.nextUid = b.nextUid ∧ b'.stats.sessions = b.stats.sessions := by
  induction entries generalizing b dropped with
  | nil =>
      cases done
      exact ⟨rfl, rfl⟩
  | cons entry rest ih =>
      obtain ⟨filter, qos⟩ := entry
      simp only [restoreSubscriptions] at done
      split at done
      · simp only [bind_eq_ok] at done
        obtain ⟨⟨next, added⟩, subscribed, done⟩ := done
        obtain ⟨nextUid, sessions⟩ := ih done
        rw [nextUid, sessions, subscribe_stats subscribed]
        obtain ⟨_, _, _, _, _, _, _, _, _, _, _, _, rfl⟩ := subscribe_changes subscribed
        exact ⟨rfl, rfl⟩
      · simp only [bind_eq_ok] at done
        obtain ⟨⟨next, n⟩, restored, same⟩ := done
        cases same
        exact ih restored

theorem restoreSession_registered {info : SessionInfo} (done : b.restoreSession info = .ok b') :
    b'.nextUid = b.nextUid + 1 ∧ b'.stats.sessions = b.stats.sessions.increment := by
  obtain ⟨filled, dropped, kept, restored, recorded, enrolled⟩ := restoreSession_parts done
  obtain ⟨nextUid, sessions⟩ := restoreSubscriptions_registered restored
  have same : kept.nextUid = filled.nextUid ∧ kept.stats.sessions = filled.stats.sessions := by
    rcases recorded with ⟨_, rfl⟩ | ⟨_, stored⟩
    · exact ⟨rfl, rfl⟩
    · rcases persist_changes stored with rfl | ⟨_, _, _, _, rfl⟩ <;> exact ⟨rfl, rfl⟩
  obtain ⟨restored, _, counted⟩ := enroll_restored enrolled
  have last : b'.nextUid = kept.nextUid := congrArg (fun r => r.2.2.1) restored
  exact ⟨(last.trans same.1).trans nextUid, counted.trans (by rw [same.2, sessions]; rfl)⟩

theorem restoreAll_registered {records : Table String Bytes} {n : Nat}
    (nextUid : b.nextUid = n + 1) (shows : b.stats.sessions.Shows n)
    (done : restoreAll records b = .ok b') :
    ∃ m, b'.nextUid = m + 1 ∧ b'.stats.sessions.Shows m := by
  induction records generalizing b n with
  | nil =>
      cases done
      exact ⟨n, nextUid, shows⟩
  | cons record rest ih =>
      simp only [restoreAll] at done
      split at done
      · simp only [bind_eq_ok] at done
        obtain ⟨next, restored, done⟩ := done
        obtain ⟨more, counted⟩ := restoreSession_registered restored
        exact ih (more.trans (by rw [nextUid])) (counted ▸ shows.increment rfl) done
      · simp only [bind_eq_ok, mapError_eq_ok] at done
        obtain ⟨storage, _, done⟩ := done
        exact ih (b := { b with storage }) nextUid shows done

theorem tally_opened (increasing : b.sessions.Increasing)
    (opened : ∀ uid s, b.session? uid = some s → s.closed = false) :
    b.tally (fun _ => 1) = b.sessions.length := by
  rw [← Table.total_length, tally, Table.total, Table.total]
  refine congrArg List.sum (List.map_congr_left fun s member => ?_)
  obtain ⟨e, here, rfl⟩ := List.mem_map.mp member
  exact Session.weight_live (opened e.1 e.2 (increasing.mem_iff.mp here)) _

theorem start_reckoned {settings : Settings} {storage : Storage.Memory} {now : Nat} {clock : Int64}
    (restorable : storage.Restorable) (started : start settings storage now clock = .ok b) :
    b.Reckoned ∧ b.Subscribed := by
  have begun : b.Begun :=
    startKeeps_begun.start (fun _ loaded => new_begun settings storage now clock loaded) started
  have orderly := (start_resumed restorable started).orderly
  obtain ⟨n, nextUid, shows⟩ : ∃ n, b.nextUid = n + 1 ∧ b.stats.sessions.Shows n := by
    simp only [start, bind_eq_ok, mapError_eq_ok] at started
    obtain ⟨retain, _, records, _, done⟩ := started
    have none : (Broker.new settings storage now clock).stats.sessions.Shows 0 :=
      ⟨rfl, fun _ => rfl⟩
    exact restoreAll_registered (b := { Broker.new settings storage now clock with retain })
      (n := 0) rfl none done
  have rolled : b.Rolled := by
    refine ⟨begun.toOrdered, orderly.live, fun uid s present live => ?_, begun.roll⟩
    exact orderly.listed uid s present live (by simp)
  refine ⟨{ rolled, begun.toTotalled with registered := ?_ }, begun.toSubscribed⟩
  rw [tally_opened begun.sessions begun.opened, Nat.add_right_cancel (begun.length.trans nextUid)]
  exact shows

/-! What the gauges are about -/

def registered (b : Broker) : List Session := b.registry.values.filterMap b.session?

namespace Rolled

variable (rolled : b.Rolled)

include rolled

theorem mem_registered {s : Session} :
    s ∈ b.registered ↔ s ∈ b.sessions.values ∧ s.closed = false := by
  unfold registered
  rw [List.mem_filterMap]
  constructor
  · rintro ⟨uid, listed, present⟩
    obtain ⟨e, entry, rfl⟩ := List.mem_map.mp listed
    obtain ⟨x, there, _, live⟩ := rolled.live e.1 e.2 (rolled.roll.mem_iff.mp entry)
    rw [present] at there
    cases there
    exact ⟨Table.mem_values present, live⟩
  · rintro ⟨member, live⟩
    obtain ⟨e, here, rfl⟩ := List.mem_map.mp member
    have present : b.session? e.1 = some e.2 := rolled.sessions.mem_iff.mp here
    exact ⟨e.1, Table.mem_values (rolled.listed _ _ present live), present⟩

theorem sessions_nodup : b.sessions.values.Nodup := by
  have keys : b.sessions.values.map Session.uid = b.sessions.keys := by
    rw [Table.values, List.map_map]
    refine List.map_congr_left fun e here => ?_
    exact (rolled.own e.1 e.2 (rolled.sessions.mem_iff.mp here)).1
  exact .of_map Session.uid (keys ▸ rolled.sessions.nodup)

theorem registered_nodup : b.registered.Nodup := by
  have entries : b.registry.Nodup := .of_map Prod.fst rolled.roll.nodup
  refine List.Nodup.filterMap (fun uid other s here there => ?_) (entries.map_on ?_)
  · exact (rolled.own uid s here).1.symm.trans (rolled.own other s there).1
  · intro e here f there same
    obtain ⟨s, present, own, _⟩ := rolled.live e.1 e.2 (rolled.roll.mem_iff.mp here)
    obtain ⟨x, present', own', _⟩ := rolled.live f.1 f.2 (rolled.roll.mem_iff.mp there)
    rw [← same, present] at present'
    cases present'
    exact Prod.ext (own.symm.trans own') same

theorem tally_registered (f : Session → Nat) : b.tally f = (b.registered.map f).sum := by
  have opened : b.tally f = ((b.sessions.values.filter fun s => !s.closed).map f).sum := by
    rw [tally, Table.total]
    induction b.sessions.values with
    | nil => rfl
    | cons s rest ih => cases closed : s.closed <;> simp [closed, ih, Session.weight]
  have same : (b.sessions.values.filter fun s => !s.closed).Perm b.registered := by
    refine (List.perm_ext_iff_of_nodup (rolled.sessions_nodup.filter _) rolled.registered_nodup).mpr
      fun s => ?_
    rw [rolled.mem_registered, List.mem_filter]
    simp
  rw [opened]
  exact (same.map f).sum_eq

theorem length_registered : b.registered.length = b.registry.length := by
  have all : ∀ uid ∈ b.registry.values, (b.session? uid).isSome := by
    intro uid listed
    obtain ⟨e, entry, rfl⟩ := List.mem_map.mp listed
    obtain ⟨s, present, _⟩ := rolled.live e.1 e.2 (rolled.roll.mem_iff.mp entry)
    exact present ▸ rfl
  rw [registered, List.length_filterMap_eq_countP, List.countP_eq_length.mpr all, Table.values,
    List.length_map]

end Rolled

/-! Every sequence of moves -/

/-- No session that is closed is unsubscribed from what it has kept. -/
def Timely (b : Broker) (m : Move) : Prop := ∀ d ∈ b.drops m, ¬b.Late d.1 d.2

/-- No session has a reserved level as a filter both alone and with a slash behind it. -/
def Unmixed (b : Broker) : Prop :=
  ∀ s ∈ b.sessions.values, ∀ space ∈ b.namespaces.reserved,
    ¬(s.holds space = true ∧ s.holds (space ++ "/") = true)

def Plain (b : Broker) : List Move → Prop
  | [] => b.Unmixed
  | m :: rest => b.Unmixed ∧ b.Timely m ∧ (b.moved m).Plain rest

instance (b : Broker) (uid : SessionUid) (filters : List String) : Decidable (b.Late uid filters) :=
  inferInstanceAs (Decidable (∃ s ∈ b.session? uid, s.closed = true ∧
    ∃ filter ∈ filters, s.holds filter = true))

instance (b : Broker) (m : Move) : Decidable (b.Timely m) :=
  inferInstanceAs (Decidable (∀ d ∈ b.drops m, ¬b.Late d.1 d.2))

instance (b : Broker) : Decidable b.Unmixed :=
  inferInstanceAs (Decidable (∀ s ∈ b.sessions.values, ∀ space ∈ b.namespaces.reserved,
    ¬(s.holds space = true ∧ s.holds (space ++ "/") = true)))

def decidePlain : (moves : List Move) → (b : Broker) → Decidable (b.Plain moves)
  | [], b => inferInstanceAs (Decidable b.Unmixed)
  | m :: rest, b =>
    have := decidePlain rest (b.moved m)
    inferInstanceAs (Decidable (b.Unmixed ∧ b.Timely m ∧ (b.moved m).Plain rest))

instance (b : Broker) (moves : List Move) : Decidable (b.Plain moves) := decidePlain moves b

theorem Plain.unmixed {moves : List Move} (plain : b.Plain moves) : b.Unmixed := by
  cases moves with
  | nil => exact plain
  | cons _ _ => exact plain.1

theorem Unmixed.unconfused (unmixed : b.Unmixed) : b.Unconfused := by
  intro uid s filter other present first second confuses
  have member := Table.mem_values present
  obtain ⟨space, reserved, ⟨rfl, rfl⟩ | ⟨rfl, rfl⟩⟩ :=
    Namespaces.split_same confuses.2 confuses.1
  · exact unmixed s member _ reserved ⟨first, second⟩
  · exact unmixed s member _ reserved ⟨second, first⟩

def Move.closes : Move → Bool
  | .close .. => true
  | .closeSessions => true
  | _ => false

theorem moved_accounts {m : Move} (leaves : m.closes = false) (reckoned : b.Reckoned) :
    (b.moved m).Reckoned ∧ (b.Timely m → b.Unmixed → (b.moved m).Unmixed → b.Subscribed →
      (b.moved m).Subscribed) := by
  have conducts : Conducts b (b.drops m) (b.moved m) := by
    refine b.moved_conducts (fun uid cleanup same => ?_) fun same => ?_
    · rw [same] at leaves
      cases leaves
    · rw [same] at leaves
      cases leaves
  obtain ⟨after, subscribed⟩ := conducts.accounts reckoned
  refine ⟨after, fun timely unmixed unmixed' => ?_⟩
  exact subscribed timely unmixed.unconfused unmixed'.unconfused

theorem moves_account {moves : List Move} (leave : ∀ m ∈ moves, m.closes = false)
    (reckoned : b.Reckoned) :
    (moves.foldl moved b).Reckoned ∧
      (b.Plain moves → b.Subscribed → (moves.foldl moved b).Subscribed) := by
  induction moves generalizing b with
  | nil => exact ⟨reckoned, fun _ subscribed => subscribed⟩
  | cons m rest ih =>
      obtain ⟨after, subscribed⟩ := moved_accounts (leave m (List.mem_cons_self ..)) reckoned
      have leave' := fun other later => leave other (List.mem_cons_of_mem m later)
      obtain ⟨last, kept⟩ := ih leave' after
      refine ⟨last, fun plain before => ?_⟩
      obtain ⟨unmixed, timely, plain⟩ := plain
      exact kept plain (subscribed timely unmixed plain.unmixed before)

/-- Whatever happens to a broker from its start on, as long as its sessions are not closed, its
gauges show how many connections are served, how many sessions are registered, how much these have
in flight and how many messages are retained. The gauge of the subscriptions shows how many the
registered sessions have, as long as none has a reserved level both alone and with a slash behind
it, and none that is closed is unsubscribed from what it has kept. -/
theorem gauges_shown {settings : Settings} {storage : Storage.Memory} {now : Nat} {clock : Int64}
    (restorable : storage.Restorable) (started : start settings storage now clock = .ok b)
    {moves : List Move} (leave : ∀ m ∈ moves, m.closes = false)
    (reached : moves.foldl moved b = b') :
    b'.stats.connections.Shows b'.served.length ∧
      b'.stats.sessions.Shows b'.registry.length ∧
      b'.stats.inflights.Shows (b'.registered.map fun s => s.inflight.entries.length).sum ∧
      b'.retain.gauge.Shows b'.retain.messages.length ∧
      (b.Plain moves → b'.stats.subscriptions.Shows
        (b'.registered.map fun s => s.info.subscriptions.length).sum) := by
  obtain ⟨reckoned, subscribed⟩ := start_reckoned restorable started
  obtain ⟨after, kept⟩ := moves_account leave reckoned
  rw [reached] at after kept
  refine ⟨after.connections, ?_, ?_, after.retained, fun plain => ?_⟩
  · have counted := after.registered
    rwa [after.tally_registered, List.map_const', List.sum_replicate_nat, Nat.mul_one,
      after.length_registered] at counted
  · rw [← after.tally_registered]
    exact after.inflights
  · rw [← after.tally_registered]
    exact (kept plain subscribed).shown

/-! A client subscribes, is sent a message that is retained, and gives a subscription back -/

def retainedNews : Publish :=
  { retain := true, qos := .atLeastOnce, topic := "news/today", payload := [1] }

def busyDay : List Move :=
  [.openLink "client" none "", .receive 0 (.connect (connectAsAnybody false)), .serve 0 false,
    .receive 0 (.subscribe .one [("news/+", .atLeastOnce), ("$SYS", .atMostOnce)]), .serve 0 false,
    .publish retainedNews, .turn 1 fun q m => q.settle m 0 0, .wait 500 0,
    .turn 1 fun q m => q.tick m 500 0, .turn 1 fun q m => q.settle m 500 0, .deliver 1,
    .receive 0 (.unsubscribe .one ["$SYS"]), .serve 0 false]

theorem busyDay_shown : start openHouse {} 0 0 = .ok (.new openHouse {} 0 0) ∧
    (busyDay.foldl moved (.new openHouse {} 0 0)).stats.connections.current = 1 ∧
    (busyDay.foldl moved (.new openHouse {} 0 0)).stats.sessions.current = 1 ∧
    (busyDay.foldl moved (.new openHouse {} 0 0)).stats.inflights.current = 1 ∧
    (busyDay.foldl moved (.new openHouse {} 0 0)).retain.gauge.current = 1 ∧
    (busyDay.foldl moved (.new openHouse {} 0 0)).stats.subscriptions.current = 1 := by
  have begun : start openHouse {} 0 0 = .ok (.new openHouse {} 0 0) := rfl
  have leave : ∀ m ∈ busyDay, m.closes = false := by decide
  obtain ⟨connections, sessions, inflights, retained, subscriptions⟩ :=
    gauges_shown Storage.Memory.restorable_empty begun leave rfl
  have plain : (Broker.new openHouse {} 0 0).Plain busyDay := by decide
  exact ⟨begun, connections.whole (by decide), sessions.whole (by decide),
    inflights.whole (by decide), retained.whole (by decide),
    (subscriptions plain).whole (by decide)⟩

/-! A session is destroyed that has a reserved level both alone and with a slash behind it -/

def levelTwice : List Move :=
  [.attach "client" { id := "c", clean := false } true true, .subscribe 1 "$SYS" .atMostOnce,
    .subscribe 1 "$SYS/" .atMostOnce, .destroy 1]

/-- Two subscriptions were counted in, and one is counted out. -/
theorem levelTwice_miscounted : start {} {} 0 0 = .ok (.new {} {} 0 0) ∧
    (∀ m ∈ levelTwice, m.closes = false) ∧
    (levelTwice.foldl moved (.new {} {} 0 0)).registered.length = 0 ∧
    (levelTwice.foldl moved (.new {} {} 0 0)).stats.subscriptions.current = 1 ∧
    ¬(levelTwice.foldl moved (.new {} {} 0 0)).stats.subscriptions.Shows
      ((levelTwice.foldl moved (.new {} {} 0 0)).registered.map
        fun s => s.info.subscriptions.length).sum := by
  have none : (levelTwice.foldl moved (.new {} {} 0 0)).registered.length = 0 := by decide
  have left : (levelTwice.foldl moved (.new {} {} 0 0)).stats.subscriptions.current = 1 := by decide
  refine ⟨rfl, by decide, none, left, fun shows => ?_⟩
  rw [List.length_eq_zero_iff.mp none] at shows
  have zero := shows.whole (by decide)
  rw [left] at zero
  cases zero

end Broker

end MqttBroker
