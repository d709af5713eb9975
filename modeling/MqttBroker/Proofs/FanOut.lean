import Mathlib.Algebra.Order.BigOperators.Group.Finset
import MqttBroker.Broker.Requests
import MqttBroker.Proofs.Settling

/-!
What becomes of published messages. A message is handed to the sessions that it is for one after
the other, while their queues take their turns and the sessions come and go. Its completion is run
when the last session is done with it, once.
-/

namespace MqttBroker

structure Distribution where
  completion : Completion
  targets : List SessionUid
  left : List SessionUid
  /-- The quality of service under which a retained message is handed. Others are handed by the
  subscriptions of the session. -/
  granted : Option QoS := none

structure FanOut where
  broker : Broker
  distributions : List Distribution := []

namespace FanOut

inductive Move
  | create (id : String) (clean : Bool)
  | subscribe (uid : SessionUid) (filter : String) (qos : QoS)
  | unsubscribe (uid : SessionUid) (filter : String)
  | close (uid : SessionUid) (cleanup : Bool)
  | connect (uid : SessionUid)
  | publish (p : Publish) (completion : Completion)
  | replay (uid : SessionUid) (p : Publish) (granted : QoS)
  | hand (id : EventId)
  | turns (uid : SessionUid) (activities : List DurableQueue.Activity)
  | pop (uid : SessionUid)
  | acknowledge (uid : SessionUid) (offset : Nat)
  | failing (fails : Bool)
  | pass (now : Nat) (clock : Int64)

def hand (s : FanOut) (id : EventId) : FanOut :=
  match s.distributions[id]? with
  | none => s
  | some d =>
    match d.left with
    | [] => s
    | uid :: rest =>
      let broker := match d.granted with
        | none => s.broker.push uid id
        | some qos => s.broker.pushGranted uid id qos
      { broker, distributions := s.distributions.set id { d with left := rest } }

def step (s : FanOut) : Move → FanOut
  | .create id clean => { s with broker := (s.broker.create id clean).1 }
  | .subscribe uid filter qos =>
    match s.broker.subscribe uid filter qos with
    | .ok (broker, _) => { s with broker }
    | .error _ => s
  | .unsubscribe uid filter =>
    match s.broker.unsubscribe uid filter with
    | .ok (broker, _) => { s with broker }
    | .error _ => s
  | .close uid cleanup => { s with broker := (s.broker.closeSession uid cleanup).1 }
  | .connect uid =>
    let (broker, conn) := s.broker.newConnection
    { s with broker := broker.putConnection { id := conn, peer := 0, outgoing := some { uid } } }
  | .publish p completion =>
    let (broker, _, targets) := s.broker.announce p completion
    { broker, distributions := s.distributions ++ [{ completion, targets, left := targets }] }
  | .replay uid p granted =>
    match s.broker.session? uid with
    | none => s
    | some _ =>
      let (broker, _) := s.broker.enter { p with retain := true } 1 .silent
      { broker, distributions := s.distributions ++
          [{ completion := .silent, targets := [uid], left := [uid], granted := some granted }] }
  | .hand id => s.hand id
  | .turns uid activities => { s with broker := s.broker.turns uid activities }
  | .pop uid => { s with broker := s.broker.useQueues uid fun q =>
      { temporary := q.temporary.pop.1, durable := q.durable.pop.1 } }
  | .acknowledge uid offset => { s with broker := s.broker.useQueues uid fun q =>
      { q with durable := q.durable.acknowledge offset } }
  | .failing fails =>
    { s with broker := { s.broker with storage := s.broker.storage.setFailing fails } }
  | .pass now clock => { s with broker := { s.broker with now, clock } }

def run (s : FanOut) (moves : List Move) : FanOut := moves.foldl step s

def started (settings : Settings) (storage : Storage.Memory) (now : Nat) (clock : Int64) : FanOut :=
  { broker := .new settings storage now clock }

/-! How the broker makes these moves -/

/-- Routing a message hands it to one session after the other. -/
theorem route_hands {id : EventId} {targets : List SessionUid} {s : FanOut} {d : Distribution}
    (entry : s.distributions[id]? = some d) (granted : d.granted = none) (left : d.left = targets) :
    ∃ n, (Broker.route id targets s.broker).1 = (s.run (List.replicate n (.hand id))).broker := by
  induction targets generalizing s d with
  | nil => exact ⟨0, rfl⟩
  | cons uid rest ih =>
      have inside : id < s.distributions.length := (List.getElem?_eq_some_iff.mp entry).1
      have handed : s.hand id = { broker := s.broker.push uid id
                                  distributions := s.distributions.set id { d with left := rest } } := by
        simp [hand, entry, left, granted]
      unfold Broker.route
      dsimp only
      split
      · refine ⟨1, ?_⟩
        simp [run, step, handed]
      · obtain ⟨n, same⟩ := ih (s := s.hand id) (d := { d with left := rest })
          (by simp [handed, inside]) granted rfl
        refine ⟨n + 1, ?_⟩
        rw [handed] at same
        rw [same]
        simp [run, step, handed, List.replicate_succ]

/-! Who still has a message -/

def unhanded (s : FanOut) (id : EventId) : Nat :=
  ((s.distributions[id]?).map fun d => d.left.length).getD 0

/-- A session still has to accept an event: it has not been handed it, or holds it in the durable
queue and has not stored it. -/
def Holds (s : FanOut) (uid : SessionUid) (id : EventId) : Prop :=
  (∃ d : Distribution, s.distributions[id]? = some d ∧ uid ∈ d.left) ∨ id ∈ s.broker.ticketsOf uid

def ran (s : FanOut) (id : EventId) : Nat := s.broker.events.given id

def ranOf (s : FanOut) (kind : Completion → Bool) : Nat :=
  ∑ id ∈ Finset.range s.distributions.length,
    if (s.distributions[id]?).any fun d => kind d.completion then s.ran id else 0

/-- Every event is owed by the sessions that have not been handed it, and by those that hold it. -/
structure Balanced (s : FanOut) : Prop where
  housed : s.broker.Housed
  length : s.distributions.length = s.broker.events.next
  left : ∀ (id : EventId) (d : Distribution), s.distributions[id]? = some d →
    ∀ uid ∈ d.left, uid ∈ d.targets ∧ (s.broker.session? uid).isSome = true
  holders : ∀ uid id, id ∈ s.broker.ticketsOf uid →
    ∃ d : Distribution, s.distributions[id]? = some d ∧ uid ∈ d.targets
  owes : s.broker.events.Owes fun id => s.unhanded id + s.broker.held id
  orders : ∀ (id : EventId) (d : Distribution), s.distributions[id]? = some d →
    s.broker.events.order? id = some d.completion
  reports : ∀ number, s.broker.reported.count number =
    s.broker.events.givenOf (Completion.asksReport number)
  acks : ∀ conn id, s.broker.acks conn id ≤
    s.broker.events.givenOf (Completion.asksAck conn id)

theorem Balanced.started (settings : Settings) {storage : Storage.Memory}
    (intact : storage.Intact) (now : Nat) (clock : Int64) :
    (started settings storage now clock).Balanced where
  housed :=
    { sessions := fun _ _ present => nomatch present
      intact := intact
      bound := fun topic uid receives => by
        simp [FanOut.started, Broker.new, Exchange.recipients_new] at receives }
  length := rfl
  left _ _ entry := nomatch entry
  holders _ _ member := nomatch member
  owes _ below := nomatch below
  orders _ _ entry := nomatch entry
  reports _ := rfl
  acks _ _ := Nat.le_refl _

theorem Balanced.owed_below {s : FanOut} (balanced : s.Balanced) {id : EventId}
    (owed : 0 < s.unhanded id + s.broker.held id) : id < s.broker.events.next := by
  rw [← balanced.length]
  by_cases handed : s.unhanded id = 0
  · have some : s.broker.held id ≠ 0 := by omega
    obtain ⟨uid, _, count⟩ := Finset.exists_ne_zero_of_sum_ne_zero some
    have member : id ∈ s.broker.ticketsOf uid :=
      List.count_pos_iff.mp (Nat.pos_of_ne_zero count)
    obtain ⟨d, entry, _⟩ := balanced.holders uid id member
    exact (List.getElem?_eq_some_iff.mp entry).1
  · cases entry : s.distributions[id]? with
    | none => simp [unhanded, entry] at handed
    | some d => exact (List.getElem?_eq_some_iff.mp entry).1

theorem Balanced.settled {s s' : FanOut} (balanced : s.Balanced)
    {taken : List (SessionUid × EventId)} {ids : List EventId}
    (settles : Broker.Settles s.broker s'.broker taken ids)
    (length : s'.distributions.length = s.distributions.length)
    (same : ∀ (id : EventId) (d' : Distribution), s'.distributions[id]? = some d' →
      ∃ d : Distribution, s.distributions[id]? = some d ∧ d'.completion = d.completion ∧
        d'.targets = d.targets ∧ d'.left ⊆ d.left)
    (handed : ∀ id, s.unhanded id = (taken.map Prod.snd).count id + s'.unhanded id)
    (own : ∀ uid id, (uid, id) ∈ taken →
      ∃ d : Distribution, s.distributions[id]? = some d ∧ uid ∈ d.targets) :
    s'.Balanced := by
  have enough : ∀ id, ids.count id ≤ s.unhanded id + s.broker.held id := by
    intro id
    have := settles.held id
    have := handed id
    omega
  have below : ∀ id ∈ ids, id < s.broker.events.next := by
    intro id member
    have some := List.count_pos_iff.mpr member
    exact balanced.owed_below (Nat.lt_of_lt_of_le some (enough id))
  have owed : (fun id => s'.unhanded id + s'.broker.held id) =
      fun id => s.unhanded id + s.broker.held id - ids.count id := by
    funext id
    have := settles.held id
    have := handed id
    omega
  constructor
  case housed => exact settles.housed
  case length => rw [length, balanced.length, settles.events, Ledger.doneAll_next]
  case left =>
    intro id d' entry uid member
    obtain ⟨d, before, _, targets, fewer⟩ := same id d' entry
    obtain ⟨target, present⟩ := balanced.left id d before uid (fewer member)
    exact ⟨targets ▸ target, settles.stays uid present⟩
  case holders =>
    intro uid id member
    have known : ∃ d : Distribution, s.distributions[id]? = some d ∧ uid ∈ d.targets := by
      rcases settles.tickets uid id member with before | new
      · exact balanced.holders uid id before
      · exact own uid id new
    obtain ⟨d, before, target⟩ := known
    have inside : id < s'.distributions.length := by
      rw [length]
      exact (List.getElem?_eq_some_iff.mp before).1
    have entry := List.getElem?_eq_getElem inside
    obtain ⟨_, again, _, targets, _⟩ := same id _ entry
    rw [before] at again
    cases again
    exact ⟨_, entry, targets ▸ target⟩
  case owes =>
    rw [settles.events, owed]
    exact balanced.owes.doneAll enough below
  case orders =>
    intro id d' entry
    obtain ⟨d, before, completion, _, _⟩ := same id d' entry
    rw [settles.events, Ledger.doneAll_order?, balanced.orders id d before, completion]
  case reports =>
    intro number
    rw [settles.carried.reports, balanced.reports, settles.events,
      Ledger.doneAll_givenOf _ below]
  case acks =>
    intro conn id
    rw [settles.events, Ledger.doneAll_givenOf _ below]
    have more := settles.carried.acks conn id
    have before := balanced.acks conn id
    omega

theorem Balanced.changed {s : FanOut} (balanced : s.Balanced) {broker : Broker}
    {ids : List EventId} (settles : Broker.Settles s.broker broker [] ids) :
    ({ s with broker } : FanOut).Balanced :=
  balanced.settled settles rfl (fun _ d entry => ⟨d, entry, rfl, rfl, fun _ => id⟩)
    (fun _ => (Nat.zero_add _).symm) fun _ _ member => nomatch member

section Entered

variable {s : FanOut}

theorem Balanced.below (balanced : s.Balanced) {id : EventId} {d : Distribution}
    (entry : s.distributions[id]? = some d) : id < s.broker.events.next := by
  rw [← balanced.length]
  exact (List.getElem?_eq_some_iff.mp entry).1

/-- Nobody can hold an event before it is entered. -/
theorem Balanced.held_next (balanced : s.Balanced) : s.broker.held s.broker.events.next = 0 := by
  by_contra some
  exact Nat.lt_irrefl _ (balanced.owed_below (by omega))

theorem Balanced.getElem?_added (balanced : s.Balanced) (d : Distribution) (id : EventId) :
    (s.distributions ++ [d])[id]? =
      if id = s.broker.events.next then some d else s.distributions[id]? := by
  rw [← balanced.length]
  rcases Nat.lt_trichotomy id s.distributions.length with old | rfl | beyond
  · rw [List.getElem?_append_left old, if_neg old.ne]
  · simp
  · rw [if_neg beyond.ne', List.getElem?_eq_none, List.getElem?_eq_none beyond.le]
    rw [List.length_append]
    exact beyond

theorem Balanced.left_added (balanced : s.Balanced) {d : Distribution} (all : d.left = d.targets)
    (present : ∀ uid ∈ d.targets, (s.broker.session? uid).isSome = true) {id : EventId}
    {e : Distribution} (entry : (s.distributions ++ [d])[id]? = some e) :
    ∀ uid ∈ e.left, uid ∈ e.targets ∧ (s.broker.session? uid).isSome = true := by
  intro uid member
  rw [balanced.getElem?_added] at entry
  split at entry
  · cases entry
    rw [all] at member
    exact ⟨member, present uid member⟩
  · exact balanced.left id e entry uid member

theorem Balanced.holders_added (balanced : s.Balanced) (d : Distribution) {uid : SessionUid}
    {id : EventId} (member : id ∈ s.broker.ticketsOf uid) :
    ∃ e : Distribution, (s.distributions ++ [d])[id]? = some e ∧ uid ∈ e.targets := by
  obtain ⟨e, entry, target⟩ := balanced.holders uid id member
  refine ⟨e, ?_, target⟩
  rw [balanced.getElem?_added, if_neg (balanced.below entry).ne]
  exact entry

theorem Balanced.owes_entered (balanced : s.Balanced) (message : Publish) {d : Distribution}
    (all : d.left = d.targets) :
    (s.broker.events.enter message d.targets.length d.completion).1.Owes fun id =>
      ({ s with distributions := s.distributions ++ [d] } : FanOut).unhanded id +
        s.broker.held id := by
  have owed : (fun id => ({ s with distributions := s.distributions ++ [d] } : FanOut).unhanded id +
      s.broker.held id) = fun id =>
        if id = s.broker.events.next then d.targets.length
        else s.unhanded id + s.broker.held id := by
    funext id
    simp only [unhanded, balanced.getElem?_added]
    split
    · rename_i new
      simp [new, balanced.held_next, all]
    · rfl
  rw [owed]
  exact balanced.owes.enter message d.targets.length d.completion

theorem Balanced.orders_entered (balanced : s.Balanced) (message : Publish) {d : Distribution}
    {id : EventId} {e : Distribution} (entry : (s.distributions ++ [d])[id]? = some e) :
    (s.broker.events.enter message d.targets.length d.completion).1.order? id =
      some e.completion := by
  rw [balanced.getElem?_added] at entry
  rw [Ledger.enter_order?]
  split at entry
  · rename_i new
    cases entry
    rw [if_pos new]
  · rename_i other
    rw [if_neg other]
    exact balanced.orders id e entry

theorem Balanced.entered (balanced : s.Balanced) (message : Publish) (d : Distribution)
    (all : d.left = d.targets)
    (present : ∀ uid ∈ d.targets, (s.broker.session? uid).isSome = true) :
    ({ broker := (s.broker.enter message d.targets.length d.completion).1
       distributions := s.distributions ++ [d] } : FanOut).Balanced := by
  have carried := s.broker.enter_carried message d.targets.length d.completion
  obtain ⟨reported, connections, frame⟩ :=
    s.broker.enter_frame message d.targets.length d.completion
  rw [frame] at carried ⊢
  constructor
  case housed =>
    exact ⟨balanced.housed.sessions, balanced.housed.intact, balanced.housed.bound⟩
  case length =>
    rw [List.length_append, balanced.length]
    rfl
  case left => exact fun _ _ entry => balanced.left_added all present entry
  case holders => exact fun _ _ member => balanced.holders_added d member
  case owes => exact balanced.owes_entered message all
  case orders => exact fun _ _ entry => balanced.orders_entered message entry
  case reports =>
    intro number
    rw [Ledger.enter_givenOf, ← balanced.reports]
    exact carried.reports number
  case acks =>
    intro conn id
    rw [Ledger.enter_givenOf]
    exact (carried.acks conn id).trans (Nat.add_le_add_right (balanced.acks conn id) _)

end Entered

theorem Balanced.hand {s : FanOut} (balanced : s.Balanced) (id : EventId) :
    (s.hand id).Balanced := by
  unfold FanOut.hand
  split
  · exact balanced
  · rename_i d entry
    split
    · exact balanced
    · rename_i uid rest next
      obtain ⟨target, present⟩ := balanced.left id d entry uid (by simp [next])
      have inside : id < s.distributions.length := (List.getElem?_eq_some_iff.mp entry).1
      have entered : (s.broker.events.event? id).isSome = true := by
        obtain ⟨event, order, known, _⟩ := balanced.owes id (balanced.below entry)
        simp [Ledger.event?, known]
      have handed : ∃ ids, Broker.Settles s.broker (match d.granted with
          | none => s.broker.push uid id
          | some qos => s.broker.pushGranted uid id qos) [(uid, id)] ids := by
        obtain ⟨x, here⟩ := Option.isSome_iff_exists.mp present
        obtain ⟨rfl, _, _⟩ := balanced.housed.sessions uid x here
        cases d.granted with
        | none => exact balanced.housed.settles_push here entered
        | some qos => exact balanced.housed.settles_pushGranted here entered qos
      obtain ⟨ids, settles⟩ := handed
      apply balanced.settled settles (List.length_set ..)
      · intro other d' after
        rw [List.getElem?_set] at after
        split at after
        · rename_i same
          subst same
          cases after
          refine ⟨d, entry, rfl, rfl, ?_⟩
          intro w member
          rw [next]
          exact List.mem_cons_of_mem _ member
        · exact ⟨d', after, rfl, rfl, List.Subset.refl _⟩
      · intro other
        simp only [unhanded, List.getElem?_set, List.map_cons, List.map_nil, List.count_singleton]
        by_cases same : id = other
        · subst same
          rw [if_pos rfl, if_pos inside, entry]
          simp [next, Nat.add_comm]
        · simp [same]
      · intro w other taken
        cases List.mem_singleton.mp taken
        exact ⟨d, entry, target⟩

theorem Balanced.step {s : FanOut} (balanced : s.Balanced) (m : Move) : (s.step m).Balanced := by
  cases m with
  | create id clean => exact balanced.changed (balanced.housed.settles_create id clean)
  | subscribe uid filter qos =>
      simp only [FanOut.step]
      split
      · rename_i subscribed
        exact balanced.changed (balanced.housed.settles_subscribe subscribed)
      · exact balanced
  | unsubscribe uid filter =>
      simp only [FanOut.step]
      split
      · rename_i unsubscribed
        obtain ⟨ids, settles⟩ := balanced.housed.settles_unsubscribe unsubscribed
        exact balanced.changed settles
      · exact balanced
  | close uid cleanup =>
      obtain ⟨ids, settles⟩ := balanced.housed.settles_closeSession uid cleanup
      exact balanced.changed settles
  | connect uid =>
      apply balanced.changed
      apply balanced.housed.settles_connection
      intro out same
      cases same
      rfl
  | publish p completion =>
      obtain ⟨x, message, settles, announced, present⟩ :=
        balanced.housed.announces p completion
      have entered := (balanced.changed settles).entered message
        { completion, targets := (s.broker.announce p completion).2.2,
          left := (s.broker.announce p completion).2.2 } rfl present
      rw [← announced] at entered
      exact entered
  | replay uid p granted =>
      simp only [FanOut.step]
      split
      · exact balanced
      · rename_i x present
        exact balanced.entered { p with retain := true }
          { completion := .silent, targets := [uid], left := [uid], granted := some granted } rfl
          (by simp [present])
  | hand id => exact balanced.hand id
  | turns uid activities =>
      obtain ⟨ids, settles⟩ := balanced.housed.settles_turns uid activities
      exact balanced.changed settles
  | pop uid =>
      apply balanced.changed
      apply balanced.housed.settles_useQueues uid
      intro q
      exact ⟨rfl, q.durable.queue.pop_tickets⟩
  | acknowledge uid offset =>
      apply balanced.changed
      apply balanced.housed.settles_useQueues uid
      intro q
      exact ⟨rfl, q.durable.queue.acknowledge_tickets offset⟩
  | failing fails =>
      have same : s.broker.storage.Extends (s.broker.storage.setFailing fails) :=
        Storage.Memory.extends_of_eq rfl rfl
      exact balanced.changed (balanced.housed.settles_aside same s.broker.retain s.broker.stats
        s.broker.now s.broker.clock)
  | pass now clock =>
      exact balanced.changed (balanced.housed.settles_aside (.refl _) s.broker.retain
        s.broker.stats now clock)

theorem Balanced.run {s : FanOut} (balanced : s.Balanced) (moves : List Move) :
    (s.run moves).Balanced := by
  induction moves generalizing s with
  | nil => exact balanced
  | cons m rest ih => exact ih (balanced.step m)

theorem Balanced.owed_none_iff {s : FanOut} (balanced : s.Balanced) {id : EventId}
    {d : Distribution} (entry : s.distributions[id]? = some d) :
    s.unhanded id + s.broker.held id = 0 ↔ ∀ uid ∈ d.targets, ¬s.Holds uid id := by
  have count : s.unhanded id = d.left.length := by simp [unhanded, entry]
  constructor
  · rintro none uid _ (⟨e, again, member⟩ | member)
    · rw [entry] at again
      cases again
      have := List.length_pos_of_mem member
      omega
    · have below : uid < s.broker.nextUid := by
        cases present : s.broker.session? uid with
        | none => simp [Broker.ticketsOf, present] at member
        | some x => exact (balanced.housed.sessions uid x present).2.1
      have some := List.count_pos_iff.mpr member
      have part : (s.broker.ticketsOf uid).count id ≤ s.broker.held id :=
        Finset.single_le_sum (f := fun uid => (s.broker.ticketsOf uid).count id)
          (fun _ _ => Nat.zero_le _) (Finset.mem_range.mpr below)
      omega
  · intro nobody
    have handed : d.left = [] := by
      apply List.eq_nil_iff_forall_not_mem.mpr
      intro uid member
      exact nobody uid (balanced.left id d entry uid member).1 (Or.inl ⟨d, entry, member⟩)
    have held : s.broker.held id = 0 := by
      apply Finset.sum_eq_zero
      intro uid _
      apply List.count_eq_zero.mpr
      intro member
      obtain ⟨e, again, target⟩ := balanced.holders uid id member
      rw [entry] at again
      cases again
      exact nobody uid target (Or.inr member)
    rw [count, handed, held]
    rfl

theorem Balanced.ranOf {s : FanOut} (balanced : s.Balanced) (kind : Completion → Bool) :
    s.ranOf kind = s.broker.events.givenOf kind := by
  unfold FanOut.ranOf Ledger.givenOf
  rw [balanced.length]
  apply Finset.sum_congr rfl
  intro id below
  have inside : id < s.distributions.length := by
    rw [balanced.length]
    exact Finset.mem_range.mp below
  have entry := List.getElem?_eq_getElem inside
  rw [balanced.orders id _ entry, entry]
  rfl

theorem completionFor_asks {conn : ConnectionId} {p : Publish} {completion : Completion}
    (accepted : Broker.completionFor conn p = .ok completion) :
    (p.qos = .atMostOnce ∧ completion = .silent) ∨
      ∃ id, p.qos = .atLeastOnce ∧ p.packetId = some id ∧ completion = .acknowledge conn id := by
  unfold Broker.completionFor at accepted
  split at accepted
  · cases accepted
    exact Or.inl ⟨by assumption, rfl⟩
  · rename_i id qos packet
    cases accepted
    exact Or.inr ⟨id, qos, packet, rfl⟩
  · cases accepted
  · cases accepted

/-- Whatever happens, the completion of a published message is run at most once, and it has been run
exactly if none of the sessions that the message was for still has to accept it. Nothing else is
reported or acknowledged; a client's message is acknowledged under its own packet id if it asks for
that, and not if it does not. -/
theorem completed_once (settings : Settings) {storage : Storage.Memory}
    (intact : storage.Intact) (now : Nat) (clock : Int64) (moves : List Move) {s : FanOut}
    (reached : s = (started settings storage now clock).run moves) :
    (∀ (id : EventId) (d : Distribution), s.distributions[id]? = some d →
      s.ran id ≤ 1 ∧ (s.ran id = 1 ↔ ∀ uid ∈ d.targets, ¬s.Holds uid id)) ∧
    (∀ number, s.broker.reported.count number = s.ranOf (Completion.asksReport number)) ∧
    (∀ conn id, s.broker.acks conn id ≤ s.ranOf (Completion.asksAck conn id)) ∧
    ∀ conn p completion, Broker.completionFor conn p = .ok completion →
      (p.qos = .atMostOnce ∧ completion = .silent) ∨
        ∃ id, p.qos = .atLeastOnce ∧ p.packetId = some id ∧
          completion = .acknowledge conn id := by
  have balanced : s.Balanced := by
    rw [reached]
    exact (Balanced.started settings intact now clock).run moves
  refine ⟨?_, ?_, ?_, ?_⟩
  · intro id d entry
    have below := balanced.below entry
    rw [← balanced.owed_none_iff entry, ran, balanced.owes.given below]
    split <;> simp_all
  · intro number
    rw [balanced.ranOf]
    exact balanced.reports number
  · intro conn id
    rw [balanced.ranOf]
    exact balanced.acks conn id
  · intro conn p completion accepted
    exact completionFor_asks accepted

def receivedMessage : List Move :=
  [.create "client" true, .subscribe 1 "news" .atLeastOnce,
   .publish { topic := "news", qos := .atLeastOnce, payload := [1] } (.report 0), .hand 0,
   .turns 1 [.receive]]

/-- The message is completed when it is stored. -/
theorem receivedMessage_completed_on_store : Storage.Memory.Intact {} ∧
    ((started {} {} 0 0).run receivedMessage).ran 0 = 0 ∧
    ((started {} {} 0 0).run (receivedMessage ++ [.turns 1 [.store 0 0 false]])).ran 0 = 1 ∧
    ¬((started {} {} 0 0).run (receivedMessage ++ [.turns 1 [.store 0 0 false]])).Holds 1 0 := by
  refine ⟨Storage.Memory.intact_empty, by decide, by decide, ?_⟩
  have once := completed_once {} Storage.Memory.intact_empty 0 0
    (receivedMessage ++ [.turns 1 [.store 0 0 false]]) rfl
  have accepted := (once.1 0 _ rfl).2.mp (by decide)
  exact accepted 1 (by decide)

end FanOut

end MqttBroker
