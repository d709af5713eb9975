import MqttBroker.Proofs.Changes

/-!
Routing and the history of subscriptions. Sessions bind filters in the exchange and unbind them as
they subscribe, unsubscribe and are closed. What is bound in the end is what would be bound if each
open session bound its filters anew, but for filters that share their place with one that the
session dropped.
-/

namespace MqttBroker

/-- The filters are different, and have one place in the exchange. -/
def Namespaces.Confuses (ns : Namespaces) (filter other : String) : Prop :=
  filter ≠ other ∧ ns.split filter = ns.split other

namespace Exchange

def bindAll : List (SessionUid × String) → Exchange → Except TopicError Exchange
  | [], x => .ok x
  | (uid, filter) :: rest, x => do
    let (x, _) ← x.bind filter uid
    bindAll rest x

theorem bindAll_succeeds {bindings : List (SessionUid × String)} (x : Exchange)
    (parsed : ∀ e ∈ bindings, ∃ pattern, Topic.parse e.2 = .ok pattern) :
    ∃ x', bindAll bindings x = .ok x' := by
  induction bindings generalizing x with
  | nil => exact ⟨x, rfl⟩
  | cons e rest ih =>
      obtain ⟨pattern, read⟩ := parsed e (List.mem_cons_self ..)
      obtain ⟨next, added, bound⟩ := bind_succeeds read x e.1
      obtain ⟨x', done⟩ := ih next fun other later => parsed other (List.mem_cons_of_mem e later)
      refine ⟨x', ?_⟩
      simp only [bindAll, bind_eq_ok]
      exact ⟨_, bound, done⟩

theorem bindAll_holds {bindings : List (SessionUid × String)} {x x' : Exchange} (neat : x.Neat)
    (done : bindAll bindings x = .ok x') :
    x'.Neat ∧ x'.namespaces = x.namespaces ∧ ∀ p uid, x'.holds p uid = true ↔
      x.holds p uid = true ∨
        ∃ filter, (uid, filter) ∈ bindings ∧ place x.namespaces filter = .ok p := by
  induction bindings generalizing x with
  | nil =>
      cases done
      exact ⟨neat, rfl, by simp⟩
  | cons e rest ih =>
      simp only [bindAll, bind_eq_ok] at done
      obtain ⟨⟨next, added⟩, bound, done⟩ := done
      have spaces := bind_namespaces bound
      obtain ⟨neat', spaces', holds⟩ := ih (neat.bind bound) done
      refine ⟨neat', spaces'.trans spaces, fun p uid => ?_⟩
      rw [holds, holds_bind bound, spaces]
      constructor
      · rintro ((before | ⟨rfl, placed⟩) | ⟨filter, member, placed⟩)
        · exact Or.inl before
        · exact Or.inr ⟨e.2, List.mem_cons_self .., placed⟩
        · exact Or.inr ⟨filter, List.mem_cons_of_mem e member, placed⟩
      · rintro (before | ⟨filter, member, placed⟩)
        · exact Or.inl (Or.inl before)
        · rcases List.mem_cons.mp member with rfl | later
          · exact Or.inl (Or.inr ⟨rfl, placed⟩)
          · exact Or.inr ⟨filter, later, placed⟩

end Exchange

namespace Broker

def Holds (b : Broker) (uid : SessionUid) (filter : String) : Prop :=
  ∃ s, b.session? uid = some s ∧ s.closed = false ∧ s.holds filter = true

def heldFilters (b : Broker) : List (SessionUid × String) :=
  (List.range b.nextUid).flatMap fun uid =>
    match b.session? uid with
    | none => []
    | some s => if s.closed then [] else s.info.subscriptions.keys.map fun filter => (uid, filter)

/-- The session has dropped another filter with the place of this one, and not bound it again. -/
def Divided (b : Broker) (dropped : List (SessionUid × String)) (uid : SessionUid)
    (filter : String) : Prop :=
  ∃ other, (uid, other) ∈ dropped ∧ b.namespaces.Confuses filter other

/-- A broker whose sessions have dropped some filters. What is bound belongs to the filters of open
sessions that are not divided. -/
structure Routed (b : Broker) (dropped : List (SessionUid × String)) : Prop where
  own : ∀ uid s, b.session? uid = some s → s.uid = uid ∧ uid < b.nextUid
  parsed : ∀ uid filter, b.Holds uid filter → ∃ pattern, Topic.parse filter = .ok pattern
  kept : ∀ uid filter, b.Holds uid filter → (uid, filter) ∉ dropped
  neat : b.exchange.Neat
  bound : ∀ p uid, b.exchange.holds p uid = true ↔ ∃ filter, b.Holds uid filter ∧
    Exchange.place b.namespaces filter = .ok p ∧ ¬b.Divided dropped uid filter

theorem mem_heldFilters {b : Broker} {uid : SessionUid} {filter : String}
    (below : ∀ uid s, b.session? uid = some s → uid < b.nextUid) :
    (uid, filter) ∈ b.heldFilters ↔ b.Holds uid filter := by
  unfold heldFilters Holds
  rw [List.mem_flatMap]
  constructor
  · rintro ⟨w, _, member⟩
    split at member
    · cases member
    · rename_i s present
      split at member
      · cases member
      · rename_i live
        simp only [List.mem_map, Prod.mk.injEq] at member
        obtain ⟨_, held, rfl, rfl⟩ := member
        exact ⟨s, present, by simpa using live, Table.mem_keys.mp held⟩
  · rintro ⟨s, present, live, held⟩
    refine ⟨uid, List.mem_range.mpr (below uid s present), ?_⟩
    simp only [present, live, Bool.false_eq_true, if_false]
    exact List.mem_map_of_mem (Table.mem_keys.mpr held)

/-! What sessions hold after a change -/

theorem Session.holds_insert (s : Session) (filter other : String) (qos : QoS) :
    (s.info.subscriptions.insert filter qos).contains other =
      (decide (other = filter) || s.holds other) := by
  unfold Table.contains Session.holds Table.contains
  rw [Table.get?_insert]
  split <;> simp_all

theorem Session.holds_erase (s : Session) (filter other : String) :
    (s.info.subscriptions.erase filter).contains other =
      (!decide (other = filter) && s.holds other) := by
  unfold Table.contains Session.holds Table.contains
  rw [Table.get?_erase]
  split <;> simp_all

theorem holds_changed {b b' : Broker} {s s' : Session}
    (found : ∀ w, b'.session? w = if w = s.uid then some s' else b.session? w)
    (w : SessionUid) (filter : String) :
    b'.Holds w filter ↔ (w ≠ s.uid ∧ b.Holds w filter) ∨
      (w = s.uid ∧ s'.closed = false ∧ s'.holds filter = true) := by
  unfold Holds
  rw [found]
  by_cases same : w = s.uid
  · simp [same]
  · simp [same]

theorem holds_iff {b : Broker} {s : Session} (present : b.session? s.uid = some s)
    (filter : String) : b.Holds s.uid filter ↔ s.closed = false ∧ s.holds filter = true := by
  unfold Holds
  rw [present]
  constructor
  · rintro ⟨_, same, live, held⟩
    cases same
    exact ⟨live, held⟩
  · rintro ⟨live, held⟩
    exact ⟨s, rfl, live, held⟩

theorem own_changed {b b' : Broker} {s s' : Session} (present : b.session? s.uid = some s)
    (own : ∀ uid x, b.session? uid = some x → x.uid = uid ∧ uid < b.nextUid)
    (found : ∀ w, b'.session? w = if w = s.uid then some s' else b.session? w)
    (uid : s'.uid = s.uid) (next : b'.nextUid = b.nextUid) (w : SessionUid) (x : Session)
    (here : b'.session? w = some x) : x.uid = w ∧ w < b'.nextUid := by
  rw [found] at here
  rw [next]
  split at here
  · rename_i same
    cases here
    exact ⟨uid.trans same.symm, same ▸ (own s.uid s present).2⟩
  · exact own w x here

def reclaimed (b : Broker) (dropped : List (SessionUid × String)) (uid : SessionUid)
    (filter : String) : List (SessionUid × String) :=
  dropped.filter fun d => !(d.1 = uid && b.namespaces.split d.2 = b.namespaces.split filter)

theorem mem_reclaimed {b : Broker} {dropped : List (SessionUid × String)} {uid w : SessionUid}
    {filter other : String} : (w, other) ∈ b.reclaimed dropped uid filter ↔
      (w, other) ∈ dropped ∧
        (w = uid → b.namespaces.split other ≠ b.namespaces.split filter) := by
  simp [reclaimed, imp_iff_not_or]

/-! Each change keeps the bindings in step with what is held. -/

theorem Routed.unchanged {b b' : Broker} {dropped : List (SessionUid × String)}
    (routed : b.Routed dropped)
    (own : ∀ uid s, b'.session? uid = some s → s.uid = uid ∧ uid < b'.nextUid)
    (holds : ∀ uid filter, b'.Holds uid filter ↔ b.Holds uid filter)
    (exchange : b'.exchange = b.exchange) : b'.Routed dropped where
  own := own
  parsed uid filter held := routed.parsed uid filter ((holds uid filter).mp held)
  kept uid filter held := routed.kept uid filter ((holds uid filter).mp held)
  neat := exchange ▸ routed.neat
  bound p uid := by
    simp only [exchange, holds, Divided, namespaces]
    exact routed.bound p uid

theorem Routed.bound_anew {b b' : Broker} {dropped : List (SessionUid × String)}
    (routed : b.Routed dropped)
    (own : ∀ uid s, b'.session? uid = some s → s.uid = uid ∧ uid < b'.nextUid)
    {uid : SessionUid} {filter : String} {pattern : Topic} {added : Bool}
    (parsed : Topic.parse filter = .ok pattern)
    (binding : b.exchange.bind filter uid = .ok (b'.exchange, added))
    (holds : ∀ w g, b'.Holds w g ↔ b.Holds w g ∨ (w = uid ∧ g = filter)) :
    b'.Routed (b.reclaimed dropped uid filter) := by
  have spaces : b'.namespaces = b.namespaces := Exchange.bind_namespaces binding
  constructor
  case own => exact own
  case neat => exact routed.neat.bind binding
  case parsed =>
    intro w g held
    rcases (holds w g).mp held with before | ⟨rfl, rfl⟩
    · exact routed.parsed w g before
    · exact ⟨pattern, parsed⟩
  case kept =>
    intro w g held member
    obtain ⟨old, apart⟩ := mem_reclaimed.mp member
    rcases (holds w g).mp held with before | ⟨rfl, rfl⟩
    · exact routed.kept w g before old
    · exact apart rfl rfl
  case bound =>
    intro p w
    rw [Exchange.holds_bind binding, routed.bound, spaces]
    constructor
    · rintro (⟨g, held, placed, whole⟩ | ⟨rfl, placed⟩)
      · refine ⟨g, (holds w g).mpr (Or.inl held), placed, ?_⟩
        rintro ⟨other, member, confuses⟩
        rw [spaces] at confuses
        exact whole ⟨other, (mem_reclaimed.mp member).1, confuses⟩
      · refine ⟨filter, (holds w filter).mpr (Or.inr ⟨rfl, rfl⟩), placed, ?_⟩
        rintro ⟨other, member, confuses⟩
        rw [spaces] at confuses
        exact (mem_reclaimed.mp member).2 rfl confuses.2.symm
    · rintro ⟨g, held, placed, whole⟩
      by_cases same : w = uid ∧ Exchange.place b.namespaces filter = .ok p
      · exact Or.inr same
      · rcases (holds w g).mp held with before | ⟨rfl, rfl⟩
        · refine Or.inl ⟨g, before, placed, ?_⟩
          rintro ⟨other, member, different, alike⟩
          have confused : b'.namespaces.Confuses g other := ⟨different, by rw [spaces]; exact alike⟩
          refine whole ⟨other, mem_reclaimed.mpr ⟨member, ?_⟩, confused⟩
          -- the place of `g` is not that of the filter, or it would be bound
          rintro rfl again
          exact same ⟨rfl, (Exchange.place_congr (alike.trans again)).symm.trans placed⟩
        · exact absurd ⟨rfl, placed⟩ same

theorem Routed.unbound {b b' : Broker} {dropped : List (SessionUid × String)}
    (routed : b.Routed dropped)
    (own : ∀ uid s, b'.session? uid = some s → s.uid = uid ∧ uid < b'.nextUid)
    {uid : SessionUid} {filter : String} {removed : Bool}
    (unbinding : b.exchange.unbind filter uid = .ok (b'.exchange, removed))
    (holds : ∀ w g, b'.Holds w g ↔ b.Holds w g ∧ ¬(w = uid ∧ g = filter)) :
    b'.Routed ((uid, filter) :: dropped) := by
  have spaces : b'.namespaces = b.namespaces := Exchange.unbind_namespaces unbinding
  constructor
  case own => exact own
  case neat => exact routed.neat.unbind unbinding
  case parsed =>
    intro w g held
    exact routed.parsed w g ((holds w g).mp held).1
  case kept =>
    intro w g held member
    obtain ⟨before, other⟩ := (holds w g).mp held
    rcases List.mem_cons.mp member with same | old
    · cases same
      exact other ⟨rfl, rfl⟩
    · exact routed.kept w g before old
  case bound =>
    intro p w
    rw [Exchange.holds_unbind routed.neat unbinding, routed.bound, spaces]
    constructor
    · rintro ⟨⟨g, held, placed, whole⟩, apart⟩
      have different : ¬(w = uid ∧ g = filter) := by
        rintro ⟨rfl, rfl⟩
        exact apart ⟨rfl, placed⟩
      refine ⟨g, (holds w g).mpr ⟨held, different⟩, placed, ?_⟩
      rintro ⟨other, member, confuses⟩
      rw [spaces] at confuses
      rcases List.mem_cons.mp member with same | old
      · cases same
        exact apart ⟨rfl, (Exchange.place_congr confuses.2).symm.trans placed⟩
      · exact whole ⟨other, old, confuses⟩
    · rintro ⟨g, held, placed, whole⟩
      obtain ⟨before, different⟩ := (holds w g).mp held
      refine ⟨⟨g, before, placed, ?_⟩, ?_⟩
      · rintro ⟨other, member, confuses⟩
        exact whole ⟨other, List.mem_cons_of_mem _ member, by rw [spaces]; exact confuses⟩
      · rintro ⟨rfl, again⟩
        have alike := Exchange.split_of_place placed again
        refine whole ⟨filter, List.mem_cons_self .., fun same => different ⟨rfl, same⟩, ?_⟩
        rw [spaces]
        exact alike

theorem Routed.unbound_all {b b' : Broker} {dropped : List (SessionUid × String)}
    (routed : b.Routed dropped)
    (own : ∀ uid s, b'.session? uid = some s → s.uid = uid ∧ uid < b'.nextUid)
    {uid : SessionUid} (unbinding : b'.exchange = (b.exchange.unbindAll uid).1)
    (holds : ∀ w g, b'.Holds w g ↔ b.Holds w g ∧ w ≠ uid) : b'.Routed dropped := by
  have spaces : b'.namespaces = b.namespaces := by
    rw [namespaces, unbinding]
    rfl
  constructor
  case own => exact own
  case parsed => exact fun w g held => routed.parsed w g ((holds w g).mp held).1
  case kept => exact fun w g held => routed.kept w g ((holds w g).mp held).1
  case neat => exact unbinding ▸ routed.neat.unbindAll uid
  case bound =>
    intro p w
    rw [unbinding, Exchange.holds_unbindAll routed.neat, routed.bound]
    simp only [holds, Divided, spaces]
    constructor
    · rintro ⟨⟨g, held, rest⟩, other⟩
      exact ⟨g, ⟨held, other⟩, rest⟩
    · rintro ⟨g, ⟨held, other⟩, rest⟩
      exact ⟨⟨g, held, rest⟩, other⟩

theorem Routed.new (settings : Settings) (storage : Storage.Memory) (now : Nat) (clock : Int64) :
    (Broker.new settings storage now clock).Routed [] where
  own _ _ present := nomatch present
  parsed := fun _ _ ⟨_, present, _⟩ => nomatch present
  kept := fun _ _ _ member => nomatch member
  neat := Exchange.neat_new _
  bound p uid := by
    constructor
    · intro holds
      have none := Exchange.holds_new settings.access.namespaces p uid
      rw [Broker.new, none] at holds
      cases holds
    · rintro ⟨_, ⟨_, present, _⟩, _⟩
      cases present

theorem Routed.create {b : Broker} {dropped : List (SessionUid × String)}
    (routed : b.Routed dropped) (id : String) (clean : Bool) :
    (b.create id clean).1.Routed dropped := by
  have found : ∀ uid, (b.create id clean).1.session? uid = if uid = b.nextUid then
      some (Session.new b.nextUid { id, cleanSession := clean } b.settings.mqtt)
      else b.session? uid := fun uid => session?_putSession ..
  apply routed.unchanged
  · intro uid s present
    rw [found] at present
    split at present
    · rename_i new
      cases present
      exact ⟨new.symm, new ▸ Nat.lt_succ_self _⟩
    · obtain ⟨own, below⟩ := routed.own uid s present
      exact ⟨own, Nat.lt_succ_of_lt below⟩
  · intro uid filter
    unfold Holds
    rw [found]
    split
    · rename_i new
      constructor
      · rintro ⟨_, same, _, held⟩
        cases same
        cases held
      · rintro ⟨s, present, _⟩
        exact absurd (new ▸ (routed.own uid s present).2) (Nat.lt_irrefl _)
    · rfl
  · rfl

theorem Routed.subscribe {b b' : Broker} {dropped : List (SessionUid × String)}
    (routed : b.Routed dropped) {uid : SessionUid} {filter : String} {qos : QoS} {added : Bool}
    (done : b.subscribe uid filter qos = .ok (b', added)) :
    b'.Routed (if added then b.reclaimed dropped uid filter else dropped) := by
  obtain ⟨topic, s, storage, exchange, stats, queues, matcher, parsed, present, live, _, entered,
    after⟩ := subscribe_changes done
  obtain ⟨rfl, _⟩ := routed.own uid s present
  have found : ∀ w, b'.session? w = if w = s.uid then some _ else b.session? w :=
    fun w => after ▸ session?_putSession ..
  have own := own_changed present routed.own found rfl (by rw [after]; rfl)
  have holds : ∀ w g, b'.Holds w g ↔ b.Holds w g ∨ (w = s.uid ∧ g = filter) := by
    intro w g
    rw [holds_changed found]
    by_cases same : w = s.uid
    · subst same
      rw [holds_iff present]
      simp only [Session.holds, Session.holds_insert, live]
      simp [or_comm]
    · simp [same]
  rcases entered with ⟨held, rfl, rfl, _⟩ | ⟨_, rfl, _, bound, binding⟩
  · have already : b.Holds s.uid filter := (holds_iff present filter).mpr ⟨live, held⟩
    refine routed.unchanged own (fun w g => ?_) (by rw [after]; rfl)
    rw [holds]
    constructor
    · rintro (before | ⟨rfl, rfl⟩)
      · exact before
      · exact already
    · exact Or.inl
  · exact routed.bound_anew own parsed (by rw [after]; exact binding) holds

theorem Routed.unsubscribe {b b' : Broker} {dropped : List (SessionUid × String)}
    (routed : b.Routed dropped) {uid : SessionUid} {filter : String} {removed : Bool}
    (done : b.unsubscribe uid filter = .ok (b', removed)) :
    b'.Routed (if removed then (uid, filter) :: dropped else dropped) := by
  obtain ⟨rfl, rfl, _⟩ | ⟨s, subscriptions, exchange, bound, storage, events, reported, connections,
    stats, queues, inflight, matcher, present, held, rfl, fewer, unbinding, _, _, _, after⟩ :=
    unsubscribe_changes done
  · exact routed
  · obtain ⟨rfl, _⟩ := routed.own uid s present
    have found : ∀ w, b'.session? w = if w = s.uid then some _ else b.session? w :=
      fun w => after ▸ session?_putSession ..
    have own := own_changed present routed.own found rfl (by rw [after]; rfl)
    refine routed.unbound own (by rw [after]; exact unbinding) fun w g => ?_
    rw [holds_changed found]
    by_cases same : w = s.uid
    · subst same
      rw [holds_iff present]
      simp only [Session.holds, fewer, Session.holds_erase]
      simp [and_left_comm, and_comm]
    · simp [same]

theorem Routed.closeSession {b : Broker} {dropped : List (SessionUid × String)}
    (routed : b.Routed dropped) (uid : SessionUid) (cleanup : Bool) :
    (b.closeSession uid cleanup).1.Routed dropped := by
  cases present : b.session? uid with
  | none =>
      simp only [Broker.closeSession, present]
      exact routed
  | some s =>
      obtain ⟨rfl, _⟩ := routed.own uid s present
      cases closed : s.closed with
      | true =>
          simp only [Broker.closeSession, present, closed, if_true]
          exact routed
      | false =>
          obtain ⟨entries, events, reported, connections, stats, inflight, _, _, after⟩ :=
            closeSession_changes present closed cleanup
          have found : ∀ w, (b.closeSession s.uid cleanup).1.session? w =
              if w = s.uid then some _ else b.session? w :=
            fun w => after ▸ session?_putSession ..
          have own := own_changed present routed.own found rfl (by rw [after]; rfl)
          refine routed.unbound_all own (by rw [after]; rfl) fun w g => ?_
          rw [holds_changed found]
          by_cases same : w = s.uid
          · simp [same]
          · simp [same]

end Broker

/-- A broker whose sessions change their subscriptions, and the filters that sessions have dropped.
A filter is taken off when the session binds it, or another with its place, anew. -/
structure Routing where
  broker : Broker
  dropped : List (SessionUid × String) := []

namespace Routing

inductive Call
  | create (id : String) (clean : Bool)
  | subscribe (uid : SessionUid) (filter : String) (qos : QoS)
  | unsubscribe (uid : SessionUid) (filter : String)
  | close (uid : SessionUid) (cleanup : Bool)

def step (r : Routing) : Call → Routing
  | .create id clean => { r with broker := (r.broker.create id clean).1 }
  | .subscribe uid filter qos =>
    match r.broker.subscribe uid filter qos with
    | .ok (broker, added) =>
      { broker, dropped := if added then r.broker.reclaimed r.dropped uid filter else r.dropped }
    | .error _ => r
  | .unsubscribe uid filter =>
    match r.broker.unsubscribe uid filter with
    | .ok (broker, removed) =>
      { broker, dropped := if removed then (uid, filter) :: r.dropped else r.dropped }
    | .error _ => r
  | .close uid cleanup => { r with broker := (r.broker.closeSession uid cleanup).1 }

def run (r : Routing) (calls : List Call) : Routing := calls.foldl step r

def started (settings : Settings) (storage : Storage.Memory) (now : Nat) (clock : Int64) :
    Routing :=
  { broker := .new settings storage now clock }

theorem step_routed {r : Routing} (routed : r.broker.Routed r.dropped) (c : Call) :
    (r.step c).broker.Routed (r.step c).dropped := by
  cases c with
  | create id clean => exact routed.create id clean
  | subscribe uid filter qos =>
      simp only [step]
      split
      · rename_i subscribed
        exact routed.subscribe subscribed
      · exact routed
  | unsubscribe uid filter =>
      simp only [step]
      split
      · rename_i unsubscribed
        exact routed.unsubscribe unsubscribed
      · exact routed
  | close uid cleanup => exact routed.closeSession uid cleanup

theorem run_routed {r : Routing} (routed : r.broker.Routed r.dropped) (calls : List Call) :
    (r.run calls).broker.Routed (r.run calls).dropped := by
  induction calls generalizing r with
  | nil => exact routed
  | cons c rest ih => exact ih (step_routed routed c)

/-- The recipients of a message are the open sessions with a filter that routes its topic to them
and is not divided. -/
theorem mem_recipients_held {b : Broker} {dropped : List (SessionUid × String)}
    (routed : b.Routed dropped) (topic : String) (uid : SessionUid) :
    uid ∈ b.exchange.recipients topic ↔ ∃ filter, b.Holds uid filter ∧
      Exchange.Routes b.namespaces filter topic ∧ ¬b.Divided dropped uid filter := by
  rw [Exchange.mem_recipients routed.neat]
  simp only [routed.bound, Exchange.routes_place]
  constructor
  · rintro ⟨pattern, ⟨filter, held, placed, whole⟩, selects⟩
    exact ⟨filter, held, ⟨pattern, placed, selects⟩, whole⟩
  · rintro ⟨filter, held, ⟨pattern, placed, selects⟩, whole⟩
    exact ⟨pattern, ⟨filter, held, placed, whole⟩, selects⟩

theorem rebound {b : Broker} {dropped : List (SessionUid × String)} (routed : b.Routed dropped) :
    ∃ fresh, Exchange.bindAll b.heldFilters (.new b.namespaces) = .ok fresh ∧
      ∀ topic uid, uid ∈ fresh.recipients topic ↔
        ∃ filter, b.Holds uid filter ∧ Exchange.Routes b.namespaces filter topic := by
  have below : ∀ uid s, b.session? uid = some s → uid < b.nextUid :=
    fun uid s present => (routed.own uid s present).2
  have parsed : ∀ e ∈ b.heldFilters, ∃ pattern, Topic.parse e.2 = .ok pattern :=
    fun e member => routed.parsed e.1 e.2 ((Broker.mem_heldFilters below).mp member)
  obtain ⟨fresh, bound⟩ := Exchange.bindAll_succeeds (.new b.namespaces) parsed
  obtain ⟨neat, spaces, holds⟩ := Exchange.bindAll_holds (Exchange.neat_new _) bound
  have spaces : fresh.namespaces = b.namespaces := spaces
  refine ⟨fresh, bound, fun topic uid => ?_⟩
  rw [Exchange.mem_recipients neat, spaces]
  simp only [holds, Exchange.holds_new, Bool.false_eq_true, false_or, Exchange.routes_place,
    Broker.mem_heldFilters below]
  constructor
  · rintro ⟨pattern, ⟨filter, held, placed⟩, selects⟩
    exact ⟨filter, held, pattern, placed, selects⟩
  · rintro ⟨filter, held, pattern, placed, selects⟩
    exact ⟨pattern, ⟨filter, held, placed⟩, selects⟩

/-- Whatever sessions subscribe to and unsubscribe from, and whichever are closed, the recipients of
a message are the open sessions with a filter that routes its topic to them and is not divided. All
of them are recipients in an exchange where the open sessions bind their filters anew, and those
are no more unless a divided filter routes the topic. Only a filter that is a reserved level alone,
or that level with a slash behind it, can be divided. -/
theorem recipients_of_rebound (settings : Settings) (storage : Storage.Memory) (now : Nat)
    (clock : Int64) (calls : List Call) {r : Routing}
    (reached : r = (started settings storage now clock).run calls) :
    (∀ uid filter, r.broker.Divided r.dropped uid filter →
      ∃ space ∈ r.broker.namespaces.reserved, filter = space ∨ filter = space ++ "/") ∧
    ∃ fresh, Exchange.bindAll r.broker.heldFilters (.new r.broker.namespaces) = .ok fresh ∧
      ∀ topic,
        (∀ uid, uid ∈ r.broker.exchange.recipients topic ↔
          ∃ filter, r.broker.Holds uid filter ∧
            Exchange.Routes r.broker.namespaces filter topic ∧
            ¬r.broker.Divided r.dropped uid filter) ∧
        (∀ uid ∈ r.broker.exchange.recipients topic, uid ∈ fresh.recipients topic) ∧
        ((∀ uid filter, r.broker.Divided r.dropped uid filter → r.broker.Holds uid filter →
            ¬Exchange.Routes r.broker.namespaces filter topic) →
          (r.broker.exchange.recipients topic).Perm (fresh.recipients topic)) := by
  have routed : r.broker.Routed r.dropped := by
    rw [reached]
    exact run_routed (Broker.Routed.new settings storage now clock) calls
  obtain ⟨fresh, bound, anew⟩ := rebound routed
  constructor
  · rintro uid filter ⟨other, _, different, same⟩
    obtain ⟨space, reserved, ⟨alone, _⟩ | ⟨slash, _⟩⟩ := Namespaces.split_same same different
    · exact ⟨space, reserved, Or.inl alone⟩
    · exact ⟨space, reserved, Or.inr slash⟩
  · refine ⟨fresh, bound, fun topic => ?_⟩
    have receives := mem_recipients_held routed topic
    refine ⟨receives, ?_, ?_⟩
    · intro uid member
      obtain ⟨filter, held, routes, _⟩ := (receives uid).mp member
      exact (anew topic uid).mpr ⟨filter, held, routes⟩
    · intro whole
      rw [List.perm_ext_iff_of_nodup (Exchange.recipients_nodup ..) (Exchange.recipients_nodup ..)]
      intro uid
      rw [receives, anew]
      constructor
      · rintro ⟨filter, held, routes, _⟩
        exact ⟨filter, held, routes⟩
      · rintro ⟨filter, held, routes⟩
        exact ⟨filter, held, routes, fun divided => whole uid filter divided held routes⟩

def droppedNamespace : Routing :=
  (started {} {} 0 0).run [.create "client" true, .subscribe 1 "$SYS" .atMostOnce,
    .subscribe 1 "$SYS/" .atMostOnce, .subscribe 1 "a/+" .atMostOnce, .unsubscribe 1 "$SYS"]

theorem droppedNamespace_routes_others : ∃ fresh,
    Exchange.bindAll droppedNamespace.broker.heldFilters
        (.new droppedNamespace.broker.namespaces) = .ok fresh ∧
      (droppedNamespace.broker.exchange.recipients "a/b").Perm (fresh.recipients "a/b") ∧
      droppedNamespace.broker.exchange.recipients "a/b" = [1] := by
  obtain ⟨reserved, fresh, bound, routes⟩ :=
    recipients_of_rebound {} {} 0 0 _ (rfl : droppedNamespace = _)
  have spaces : droppedNamespace.broker.namespaces = ⟨["$SYS", "$link"]⟩ := by decide
  refine ⟨fresh, bound, (routes "a/b").2.2 ?_, by decide⟩
  intro uid filter divided _ routed
  obtain ⟨space, member, same⟩ := reserved uid filter divided
  rw [spaces] at member routed
  have known : space = "$SYS" ∨ space = "$link" := by simpa using member
  rcases known with rfl | rfl <;> rcases same with rfl | rfl <;>
    exact absurd routed.1 (by decide)

/-- The session still has the filter with the slash, and receives nothing by it. -/
theorem droppedNamespace_not_routed : ∃ fresh,
    Exchange.bindAll droppedNamespace.broker.heldFilters
        (.new droppedNamespace.broker.namespaces) = .ok fresh ∧
      (1, "$SYS/") ∈ droppedNamespace.broker.heldFilters ∧
      droppedNamespace.broker.exchange.recipients "$SYS/" = [] ∧
      fresh.recipients "$SYS/" = [1] :=
  ⟨_, rfl, by decide, by decide, by decide⟩

end Routing

end MqttBroker
