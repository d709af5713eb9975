import MqttBroker.Proofs.Destroying
import MqttBroker.Proofs.Tallies

/-!
What the gauges of a broker show. Each is kept in step with what it is about: the connections that
are served, the sessions that are open, what these have in flight and subscribed to, and the
messages retained.
-/

namespace MqttBroker

structure Session.Kempt (s : Session) : Prop where
  idle : s.closed = true → s.queues = none ∧ s.inflight.entries = []
  ordered : s.inflight.Ordered
  filters : s.info.subscriptions.Increasing

/-- What a session counts: nothing once it is closed. -/
def Session.weight (f : Session → Nat) (s : Session) : Nat := if s.closed then 0 else f s

theorem Session.weight_live {s : Session} (live : s.closed = false) (f : Session → Nat) :
    s.weight f = f s := by
  simp [weight, live]

theorem Session.weight_gone {s : Session} (gone : s.closed = true) (f : Session → Nat) :
    s.weight f = 0 := by
  simp [weight, gone]

structure Session.Remains (s s' : Session) : Prop where
  uid : s'.uid = s.uid
  id : s'.info.id = s.info.id
  closed : s'.closed = s.closed
  kempt : s.Kempt → s'.Kempt

namespace Broker

variable {b b' b'' : Broker}

structure Ordered (b : Broker) : Prop where
  own : ∀ uid s, b.session? uid = some s → s.uid = uid ∧ uid < b.nextUid
  kempt : ∀ uid s, b.session? uid = some s → s.Kempt
  sessions : b.sessions.Increasing

structure Rolled (b : Broker) : Prop extends Ordered b where
  live : ∀ id uid, b.registry.get? id = some uid →
    ∃ s, b.session? uid = some s ∧ s.info.id = id ∧ s.closed = false
  listed : ∀ uid s, b.session? uid = some s → s.closed = false →
    b.registry.get? s.info.id = some uid
  roll : b.registry.Increasing

def tally (f : Session → Nat) (b : Broker) : Nat := b.sessions.total (Session.weight f)

def inFlight (b : Broker) : Nat := b.tally fun s => s.inflight.entries.length

def subscribed (b : Broker) : Nat := b.tally fun s => s.info.subscriptions.length

/-! One session changes -/

theorem session?_inserted {s' : Session} {uid : SessionUid}
    (sessions : b'.sessions = b.sessions.insert uid s') (w : SessionUid) :
    b'.session? w = if w = uid then some s' else b.session? w := by
  rw [session?, sessions, Table.get?_insert]
  rfl

namespace Ordered

variable (ordered : b.Ordered) {s s' : Session}

include ordered

theorem changed (present : b.session? s.uid = some s) (uid : s'.uid = s.uid) (kempt : s'.Kempt)
    (sessions : b'.sessions = b.sessions.insert s.uid s') (nextUid : b'.nextUid = b.nextUid) :
    b'.Ordered := by
  have found := session?_inserted sessions
  refine ⟨own_changed present ordered.own found uid nextUid, fun w x here => ?_,
    sessions ▸ ordered.sessions.insert s.uid s'⟩
  rw [found] at here
  split at here
  · cases here
    exact kempt
  · exact ordered.kempt w x here

theorem added (uid : s.uid = b.nextUid) (kempt : s.Kempt)
    (sessions : b'.sessions = b.sessions.insert s.uid s) (nextUid : b'.nextUid = b.nextUid + 1) :
    b'.Ordered := by
  have found := session?_inserted sessions
  refine ⟨fun w x here => ?_, fun w x here => ?_, sessions ▸ ordered.sessions.insert s.uid s⟩
  all_goals
    rw [found] at here
    split at here
  · rename_i same
    cases here
    exact ⟨same.symm, nextUid ▸ same ▸ uid ▸ Nat.lt_succ_self _⟩
  · obtain ⟨own, below⟩ := ordered.own w x here
    exact ⟨own, nextUid ▸ Nat.lt_succ_of_lt below⟩
  · cases here
    exact kempt
  · exact ordered.kempt w x here

theorem tally_changed (present : b.session? s.uid = some s)
    (sessions : b'.sessions = b.sessions.insert s.uid s') (f : Session → Nat) :
    b'.tally f + s.weight f = b.tally f + s'.weight f := by
  have summed := ordered.sessions.total_insert (Session.weight f) s.uid s'
  rw [session?] at present
  rw [present, ← sessions, Option.map_some, Option.getD_some] at summed
  exact summed

theorem tally_live (present : b.session? s.uid = some s)
    (sessions : b'.sessions = b.sessions.insert s.uid s') (live : s.closed = false)
    (live' : s'.closed = false) {f : Session → Nat} {n m : Nat} (before : f s = n)
    (after : f s' = m) : b'.tally f + n = b.tally f + m := by
  have changed := ordered.tally_changed present sessions f
  rwa [Session.weight_live live, Session.weight_live live', before, after] at changed

theorem tally_same (present : b.session? s.uid = some s)
    (sessions : b'.sessions = b.sessions.insert s.uid s') {f : Session → Nat}
    (same : s'.weight f = s.weight f) : b'.tally f = b.tally f := by
  have changed := ordered.tally_changed present sessions f
  omega

theorem tally_added (absent : b.session? s.uid = none)
    (sessions : b'.sessions = b.sessions.insert s.uid s) (f : Session → Nat) :
    b'.tally f = b.tally f + s.weight f := by
  have summed := ordered.sessions.total_insert (Session.weight f) s.uid s
  rw [session?] at absent
  rw [absent, ← sessions] at summed
  exact summed

end Ordered

namespace Rolled

variable (rolled : b.Rolled) {s s' : Session}

include rolled

theorem changed (present : b.session? s.uid = some s) (remains : s.Remains s')
    (sessions : b'.sessions = b.sessions.insert s.uid s') (registry : b'.registry = b.registry)
    (nextUid : b'.nextUid = b.nextUid) : b'.Rolled := by
  have found := session?_inserted sessions
  have kempt := remains.kempt (rolled.kempt _ _ present)
  refine ⟨rolled.toOrdered.changed present remains.uid kempt sessions nextUid, ?_, ?_,
    registry ▸ rolled.roll⟩
  · intro id w entry
    rw [registry] at entry
    obtain ⟨x, there, own, opened⟩ := rolled.live id w entry
    rw [found]
    split
    · rename_i same
      rw [same, present] at there
      cases there
      exact ⟨s', rfl, remains.id.trans own, remains.closed.trans opened⟩
    · exact ⟨x, there, own, opened⟩
  · intro w x here opened
    rw [registry]
    rw [found] at here
    split at here
    · rename_i same
      cases here
      rw [remains.id, same]
      exact rolled.listed s.uid s present (remains.closed.symm.trans opened)
    · exact rolled.listed w x here opened

theorem struck (present : b.session? s.uid = some s) (live : s.closed = false)
    (uid : s'.uid = s.uid) (closed : s'.closed = true) (kempt : s'.Kempt)
    (sessions : b'.sessions = b.sessions.insert s.uid s')
    (registry : b'.registry = b.registry.erase s.info.id) (nextUid : b'.nextUid = b.nextUid) :
    b'.Rolled := by
  have found := session?_inserted sessions
  refine ⟨rolled.toOrdered.changed present uid kempt sessions nextUid, ?_, ?_,
    registry ▸ rolled.roll.erase s.info.id⟩
  · intro id w entry
    rw [registry, Table.get?_erase] at entry
    split at entry
    · cases entry
    · rename_i other
      obtain ⟨x, there, own, opened⟩ := rolled.live id w entry
      rw [found, if_neg]
      · exact ⟨x, there, own, opened⟩
      · rintro rfl
        rw [present] at there
        cases there
        exact other own.symm
  · intro w x here opened
    rw [found] at here
    split at here
    · cases here
      rw [closed] at opened
      cases opened
    · rename_i other
      have entry := rolled.listed w x here opened
      rw [registry, Table.get?_erase, if_neg]
      · exact entry
      · intro same
        rw [same, rolled.listed s.uid s present live] at entry
        exact other (Option.some.inj entry).symm

theorem unlisted {id : String} (absent : b.find? id = none) : b.registry.get? id = none := by
  cases entry : b.registry.get? id with
  | none => rfl
  | some uid =>
      obtain ⟨s, present, _⟩ := rolled.live id uid entry
      rw [find?, entry, Option.bind_some, present] at absent
      cases absent

theorem entered (uid : s.uid = b.nextUid) (live : s.closed = false) (kempt : s.Kempt)
    (absent : b.find? s.info.id = none) (sessions : b'.sessions = b.sessions.insert s.uid s)
    (registry : b'.registry = b.registry.insert s.info.id s.uid)
    (nextUid : b'.nextUid = b.nextUid + 1) : b'.Rolled := by
  have found := session?_inserted sessions
  have unused : b.session? s.uid = none := uid ▸ session?_unused rolled.own
  refine ⟨rolled.toOrdered.added uid kempt sessions nextUid, ?_, ?_,
    registry ▸ rolled.roll.insert s.info.id s.uid⟩
  · intro id w entry
    rw [registry, Table.get?_insert] at entry
    rw [found]
    split at entry
    · rename_i same
      cases entry
      rw [if_pos rfl]
      exact ⟨s, rfl, same.symm, live⟩
    · obtain ⟨x, there, rest⟩ := rolled.live id w entry
      rw [if_neg]
      · exact ⟨x, there, rest⟩
      · rintro rfl
        rw [unused] at there
        cases there
  · intro w x here opened
    rw [registry, Table.get?_insert]
    rw [found] at here
    split at here
    · rename_i same
      cases here
      rw [if_pos rfl, same]
    · have entry := rolled.listed w x here opened
      rw [if_neg]
      · exact entry
      · intro same
        rw [same, rolled.unlisted absent] at entry
        cases entry

end Rolled

/-! What is counted -/

/-- All that is counted but the sessions, and the gauge of what they have in flight. -/
def standing (b : Broker) :
    Table String SessionUid × Exchange × Nat × List ConnectionId × RetainStore × Gauge × Gauge ×
      Gauge :=
  (b.registry, b.exchange, b.nextUid, b.served, b.retain, b.stats.connections, b.stats.sessions,
    b.stats.subscriptions)

def counted (b : Broker) :=
  (b.sessions, b.stats.inflights, b.standing)

theorem standing_eq {other : Broker} (same : b'.standing = other.standing) :
    b'.registry = other.registry ∧ b'.exchange = other.exchange ∧ b'.nextUid = other.nextUid ∧
      b'.served = other.served ∧ b'.retain = other.retain ∧
      b'.stats.connections = other.stats.connections ∧ b'.stats.sessions = other.stats.sessions ∧
      b'.stats.subscriptions = other.stats.subscriptions := by
  simpa [standing] using same

theorem counted_eq (same : b'.counted = b.counted) :
    b'.sessions = b.sessions ∧ b'.stats.inflights = b.stats.inflights ∧
      b'.standing = b.standing := by
  simpa [counted] using same

structure Totalled (b : Broker) : Prop extends Ordered b where
  spaces : b.exchange.spaces.Increasing
  messages : b.retain.messages.Increasing
  connections : b.stats.connections.Shows b.served.length
  inflights : b.stats.inflights.Shows b.inFlight
  retained : b.retain.gauge.Shows b.retain.messages.length

structure Reckoned (b : Broker) : Prop extends Rolled b, Totalled b where
  registered : b.stats.sessions.Shows (b.tally fun _ => 1)

structure Subscribed (b : Broker) : Prop where
  routed : b.Routed []
  shown : b.stats.subscriptions.Shows b.subscribed

/-! No session changes -/

theorem session?_beside (sessions : b'.sessions = b.sessions) : b'.session? = b.session? := by
  funext w
  rw [session?, session?, sessions]

theorem tally_beside (sessions : b'.sessions = b.sessions) (f : Session → Nat) :
    b'.tally f = b.tally f := by
  rw [tally, tally, sessions]

theorem Ordered.beside (ordered : b.Ordered) (sessions : b'.sessions = b.sessions)
    (nextUid : b'.nextUid = b.nextUid) : b'.Ordered := by
  refine ⟨?_, session?_beside sessions ▸ ordered.kempt, sessions ▸ ordered.sessions⟩
  rw [session?_beside sessions, nextUid]
  exact ordered.own

theorem Subscribed.beside (subscribed : b.Subscribed) (sessions : b'.sessions = b.sessions)
    (nextUid : b'.nextUid = b.nextUid) (exchange : b'.exchange = b.exchange)
    (gauge : b'.stats.subscriptions = b.stats.subscriptions) : b'.Subscribed := by
  have found := session?_beside sessions
  refine ⟨subscribed.routed.unchanged ?_ (fun uid filter => ?_) exchange, ?_⟩
  · rw [found, nextUid]
    exact subscribed.routed.own
  · unfold Holds
    rw [found]
  · rw [gauge, Broker.subscribed, tally_beside sessions]
    exact subscribed.shown

/-! One session changes, and the gauges with it -/

theorem Totalled.inFlight_shown (totalled : b.Totalled) {s s' : Session}
    (present : b.session? s.uid = some s) (remains : s.Remains s')
    (sessions : b'.sessions = b.sessions.insert s.uid s')
    (moved : ∀ others, b.stats.inflights.Shows (others + s.inflight.entries.length) →
      b'.stats.inflights.Shows (others + s'.inflight.entries.length)) :
    b'.stats.inflights.Shows b'.inFlight := by
  have kempt := totalled.kempt _ _ present
  cases closed : s.closed with
  | true =>
      have closed' : s'.closed = true := remains.closed.trans closed
      have still := moved b.inFlight
      rw [(kempt.idle closed).2, ((remains.kempt kempt).idle closed').2] at still
      rw [inFlight, totalled.tally_same present sessions]
      · exact still totalled.inflights
      · rw [Session.weight_gone closed, Session.weight_gone closed']
  | false =>
      have changed : b'.inFlight + _ = b.inFlight + _ :=
        totalled.tally_live present sessions closed (remains.closed.trans closed) rfl rfl
      have part := Table.le_total present (Session.weight fun s => s.inflight.entries.length)
      rw [Session.weight_live closed] at part
      obtain ⟨others, whole⟩ := Nat.exists_eq_add_of_le' part
      have before : b.inFlight = others + s.inflight.entries.length := whole
      have after : b'.inFlight = others + s'.inflight.entries.length := by omega
      rw [after]
      exact moved others (before ▸ totalled.inflights)

theorem Totalled.reformed (totalled : b.Totalled) {s s' : Session}
    (present : b.session? s.uid = some s) (remains : s.Remains s')
    (sessions : b'.sessions = b.sessions.insert s.uid s') {exchange : Exchange}
    (spaces : exchange.spaces.Increasing) {stats : Stats}
    (standing : b'.standing = { b with exchange, stats }.standing)
    (connections : stats.connections = b.stats.connections)
    (inflights : b'.stats.inflights.Shows b'.inFlight) : b'.Totalled := by
  obtain ⟨_, same, nextUid, served, retain, shown, _⟩ := standing_eq standing
  have kempt := remains.kempt (totalled.kempt _ _ present)
  refine ⟨totalled.toOrdered.changed present remains.uid kempt sessions nextUid, ?_, ?_, ?_,
    inflights, ?_⟩
  · rw [same]
    exact spaces
  · rw [retain]
    exact totalled.messages
  · rw [shown, served, connections]
    exact totalled.connections
  · rw [retain]
    exact totalled.retained

theorem Reckoned.reformed (reckoned : b.Reckoned) {s s' : Session}
    (present : b.session? s.uid = some s) (remains : s.Remains s')
    (sessions : b'.sessions = b.sessions.insert s.uid s') {exchange : Exchange}
    (spaces : exchange.spaces.Increasing) {stats : Stats}
    (standing : b'.standing = { b with exchange, stats }.standing)
    (connections : stats.connections = b.stats.connections)
    (registered : stats.sessions = b.stats.sessions)
    (inflights : b'.stats.inflights.Shows b'.inFlight) : b'.Reckoned := by
  obtain ⟨registry, _, nextUid, _, _, _, shown, _⟩ := standing_eq standing
  have totalled := reckoned.toTotalled.reformed present remains sessions spaces standing connections
    inflights
  have weight : s'.weight (fun _ => 1) = s.weight fun _ => 1 := by
    rw [Session.weight, Session.weight, remains.closed]
  refine { totalled, reckoned.toRolled.changed present remains sessions registry nextUid with
    registered := ?_ }
  rw [shown, registered, reckoned.tally_same present sessions weight]
  exact reckoned.registered

/-- No session has, or has had in the end, two filters with one place. -/
def Unconfused (b : Broker) : Prop :=
  ∀ uid s filter other, b.session? uid = some s → s.holds filter = true → s.holds other = true →
    ¬b.namespaces.Confuses filter other

/-- The gauges show what they did, and no subscription is lost but with its session. -/
structure Counts (b b' : Broker) : Prop where
  reckoned : b'.Reckoned
  namespaces : b'.namespaces = b.namespaces
  grown : ∀ uid s, b.session? uid = some s → ∃ s', b'.session? uid = some s' ∧
    ∀ filter, s.holds filter = true → s'.holds filter = true
  subscribed : b'.Unconfused → b.Subscribed → b'.Subscribed

theorem Counts.refl (reckoned : b.Reckoned) : Counts b b :=
  ⟨reckoned, rfl, fun _ s present => ⟨s, present, fun _ => id⟩, fun _ => id⟩

theorem Counts.unconfused (counts : Counts b b') (unconfused : b'.Unconfused) : b.Unconfused := by
  intro uid s filter other present first second
  obtain ⟨s', later, grown⟩ := counts.grown uid s present
  rw [← counts.namespaces]
  exact unconfused uid s' filter other later (grown filter first) (grown other second)

theorem Counts.trans (first : Counts b b') (second : b'.Reckoned → Counts b' b'') :
    Counts b b'' := by
  have second := second first.reckoned
  refine ⟨second.reckoned, second.namespaces.trans first.namespaces, ?_, ?_⟩
  · intro uid s present
    obtain ⟨s', later, grown⟩ := first.grown uid s present
    obtain ⟨s'', last, grown'⟩ := second.grown uid s' later
    exact ⟨s'', last, fun filter held => grown' filter (grown filter held)⟩
  · intro unconfused subscribed
    exact second.subscribed unconfused
      (first.subscribed (second.unconfused unconfused) subscribed)

end Broker

end MqttBroker
