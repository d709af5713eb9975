import MqttBroker.Broker.Clock
import MqttBroker.Proofs.Exchange
import MqttBroker.Proofs.Ledger
import MqttBroker.Proofs.Subscriptions
import MqttBroker.Proofs.Tickets

/-!
What the operations of a broker do to the events under way. Events wait in the durable queues of
sessions; an event that leaves a queue is done with, once for each time that it was in.
-/

namespace MqttBroker

namespace Completion

def asksReport (number : Nat) : Completion → Bool
  | .report n => n = number
  | _ => false

def asksAck (conn : ConnectionId) (id : PacketId) : Completion → Bool
  | .acknowledge c i => c = conn && i = id
  | _ => false

end Completion

def Packet.acknowledges (id : PacketId) : Packet → Bool
  | .publishAck i => i = id
  | _ => false

namespace Broker

/-! Carrying out orders -/

/-- The acknowledgments of a packet id that a connection has been given to send. -/
def acks (b : Broker) (conn : ConnectionId) (id : PacketId) : Nat :=
  (((b.connections.get? conn).bind Connection.outgoing).map fun out =>
    out.replies.countP (Packet.acknowledges id)).getD 0

structure Carried (b b' : Broker) (due : List Completion) : Prop where
  reports : ∀ number, b'.reported.count number =
    b.reported.count number + due.countP (Completion.asksReport number)
  acks : ∀ conn id, b'.acks conn id ≤ b.acks conn id + due.countP (Completion.asksAck conn id)

theorem Carried.trans {b b' b'' : Broker} {due more : List Completion} (first : Carried b b' due)
    (second : Carried b' b'' more) : Carried b b'' (due ++ more) where
  reports number := by
    rw [second.reports, first.reports, List.countP_append, Nat.add_assoc]
  acks conn id := by
    have := first.acks conn id
    have := second.acks conn id
    rw [List.countP_append]
    omega

theorem carried_of_eq {b b' : Broker} (reported : b'.reported = b.reported)
    (acks : ∀ conn id, b'.acks conn id = b.acks conn id) : Carried b b' [] where
  reports number := by rw [reported]; rfl
  acks conn id := by rw [acks]; exact Nat.le_refl _

theorem kick_acks (b : Broker) (other conn : ConnectionId) (id : PacketId) :
    (b.kick other).acks conn id = b.acks conn id := by
  have same : ((b.kick other).connections.get? conn).bind Connection.outgoing =
      (b.connections.get? conn).bind Connection.outgoing := by
    simp only [kick, Table.get?_modify]
    split
    · cases b.connections.get? conn <;> rfl
    · rfl
  rw [acks, acks, same]

theorem reply_acks (b : Broker) (other conn : ConnectionId) (p : Packet) (id : PacketId) :
    (b.reply other p).acks conn id ≤
      b.acks conn id + if conn = other then [p].countP (Packet.acknowledges id) else 0 := by
  simp only [acks, reply, Table.get?_modify]
  split
  · cases b.connections.get? conn with
    | none => simp
    | some c =>
        cases sending : c.outgoing with
        | none => simp [sending]
        | some out => simp [sending, List.countP_append]
  · exact Nat.le_refl _

theorem complete_carried (b : Broker) (c : Completion) : Carried b (b.complete c) [c] := by
  cases c with
  | silent => exact ⟨fun _ => rfl, fun _ _ => Nat.le_refl _⟩
  | report n =>
      constructor
      · intro number
        simp [complete, Completion.asksReport, List.count_append, List.count_singleton]
      · intro conn id
        exact Nat.le_add_right ..
  | acknowledge other i =>
      constructor
      · intro number
        rfl
      · intro conn id
        refine (b.reply_acks other conn (.publishAck i) id).trans (Nat.add_le_add_left ?_ _)
        by_cases same : conn = other
        · simp [same, Completion.asksAck, Packet.acknowledges]
        · simp [same]

theorem completeAll_carried (b : Broker) (due : List Completion) :
    Carried b (due.foldl complete b) due := by
  induction due generalizing b with
  | nil => exact carried_of_eq rfl fun _ _ => rfl
  | cons c rest ih => exact (b.complete_carried c).trans (ih _)

theorem completeAll_frame (b : Broker) (due : List Completion) :
    ∃ reported connections, due.foldl complete b = { b with reported, connections } := by
  induction due generalizing b with
  | nil => exact ⟨_, _, rfl⟩
  | cons c rest ih =>
      obtain ⟨reported, connections, same⟩ := ih (b.complete c)
      rw [List.foldl_cons, same]
      cases c <;> exact ⟨_, _, rfl⟩

theorem doneAll_frame (b : Broker) (ids : List EventId) :
    ∃ reported connections, b.doneAll ids =
      { b with events := (b.events.doneAll ids).1, reported, connections } := by
  obtain ⟨reported, connections, same⟩ := completeAll_frame
    { b with events := (b.events.doneAll ids).1 } (b.events.doneAll ids).2
  exact ⟨reported, connections, same⟩

theorem doneAll_carried (b : Broker) (ids : List EventId) :
    Carried b (b.doneAll ids) (b.events.doneAll ids).2 := by
  have entered : Carried b { b with events := (b.events.doneAll ids).1 } [] :=
    carried_of_eq rfl fun _ _ => rfl
  exact entered.trans (completeAll_carried ..)

theorem enter_frame (b : Broker) (message : Publish) (recipients : Nat) (c : Completion) :
    ∃ reported connections, (b.enter message recipients c).1 =
      { b with events := (b.events.enter message recipients c).1, reported, connections } :=
  completeAll_frame { b with events := (b.events.enter message recipients c).1 } _

theorem enter_carried (b : Broker) (message : Publish) (recipients : Nat) (c : Completion) :
    Carried b (b.enter message recipients c).1 (b.events.enter message recipients c).2.2 := by
  have entered : Carried b { b with events := (b.events.enter message recipients c).1 } [] :=
    carried_of_eq rfl fun _ _ => rfl
  exact entered.trans (completeAll_carried ..)

/-! The events that sessions hold -/

def ticketsOf (b : Broker) (uid : SessionUid) : List EventId :=
  ((b.session? uid).map Session.tickets).getD []

def held (b : Broker) (id : EventId) : Nat :=
  ∑ uid ∈ Finset.range b.nextUid, (b.ticketsOf uid).count id

/-- A broker as it is built up: its sessions are known by their numbers, their queues have buckets,
and only sessions receive messages. -/
structure Housed (b : Broker) : Prop where
  sessions : ∀ uid s, b.session? uid = some s →
    s.uid = uid ∧ uid < b.nextUid ∧ s.Ready b.storage
  intact : b.storage.Intact
  bound : ∀ topic uid, uid ∈ b.exchange.recipients topic → (b.session? uid).isSome = true

/-- The broker took the events `taken` into sessions, and was done with the events `ids`. -/
structure Settles (b b' : Broker) (taken : List (SessionUid × EventId)) (ids : List EventId) :
    Prop where
  housed : b'.Housed
  stays : ∀ uid, (b.session? uid).isSome = true → (b'.session? uid).isSome = true
  tickets : ∀ uid id, id ∈ b'.ticketsOf uid → id ∈ b.ticketsOf uid ∨ (uid, id) ∈ taken
  held : ∀ id, b.held id + (taken.map Prod.snd).count id = ids.count id + b'.held id
  events : b'.events = (b.events.doneAll ids).1
  carried : Carried b b' (b.events.doneAll ids).2

theorem Housed.settles_nothing {b b' : Broker} (housed : b.Housed)
    (sessions : b'.sessions = b.sessions) (nextUid : b'.nextUid = b.nextUid)
    (bound : ∀ topic uid, uid ∈ b'.exchange.recipients topic → uid ∈ b.exchange.recipients topic)
    (storage : b.storage.Extends b'.storage) (events : b'.events = b.events)
    (carried : Carried b b' []) : Settles b b' [] [] := by
  have same : b'.session? = b.session? := by
    funext uid
    rw [session?, session?, sessions]
  have tickets : b'.ticketsOf = b.ticketsOf := by
    funext uid
    rw [ticketsOf, ticketsOf, same]
  have rehoused : b'.Housed := by
    refine ⟨?_, storage.intact housed.intact, ?_⟩
    · intro uid s present
      rw [same] at present
      obtain ⟨own, below, ready⟩ := housed.sessions uid s present
      rw [nextUid]
      exact ⟨own, below, ready.extended storage⟩
    · intro topic uid receives
      rw [same]
      exact housed.bound topic uid (bound topic uid receives)
  refine ⟨rehoused, ?_, ?_, ?_, events, carried⟩
  · intro uid present
    rw [same]
    exact present
  · intro uid id member
    rw [tickets] at member
    exact Or.inl member
  · intro id
    simp [Broker.held, nextUid, tickets]

theorem Housed.settles_refl {b : Broker} (housed : b.Housed) : Settles b b [] [] :=
  housed.settles_nothing rfl rfl (fun _ _ => id) (.refl _) rfl (carried_of_eq rfl fun _ _ => rfl)

theorem Housed.settles_aside {b : Broker} (housed : b.Housed) {storage : Storage.Memory}
    (more : b.storage.Extends storage) (retain : RetainStore) (stats : Stats) (now : Nat)
    (clock : Int64) : Settles b { b with storage, retain, stats, now, clock } [] [] :=
  housed.settles_nothing rfl rfl (fun _ _ => id) more rfl (carried_of_eq rfl fun _ _ => rfl)

theorem Settles.after {b b' b'' : Broker} {taken : List (SessionUid × EventId)}
    {ids : List EventId} (first : Settles b b' [] []) (second : Settles b' b'' taken ids) :
    Settles b b'' taken ids where
  housed := second.housed
  stays uid present := second.stays uid (first.stays uid present)
  tickets uid id member := (second.tickets uid id member).imp_left fun before =>
    (first.tickets uid id before).resolve_right (List.not_mem_nil)
  held id := by
    have before := first.held id
    have after := second.held id
    simp only [List.map_nil, List.count_nil] at before
    omega
  events := by
    rw [second.events, first.events]
    rfl
  carried := by
    have carried := first.carried.trans second.carried
    rw [first.events] at carried
    exact carried

theorem Settles.before {b b' b'' : Broker} {taken : List (SessionUid × EventId)}
    {ids : List EventId} (first : Settles b b' taken ids) (second : Settles b' b'' [] []) :
    Settles b b'' taken ids where
  housed := second.housed
  stays uid present := second.stays uid (first.stays uid present)
  tickets uid id member := first.tickets uid id
    ((second.tickets uid id member).resolve_right (List.not_mem_nil))
  held id := by
    have before := first.held id
    have after := second.held id
    simp only [List.map_nil, List.count_nil] at after
    omega
  events := second.events.trans first.events
  carried := by
    have carried := first.carried.trans second.carried
    rw [Ledger.doneAll, List.append_nil] at carried
    exact carried

/-- One session has changed, which took in the events `taken` and gave up the events `ids`. -/
theorem Housed.settles_session {b b' : Broker} (housed : b.Housed) {s : Session} (s' : Session)
    (taken ids : List EventId) (present : b.session? s.uid = some s)
    (found : ∀ uid, b'.session? uid = if uid = s.uid then some s' else b.session? uid)
    (own : s'.uid = s.uid)
    (nextUid : b'.nextUid = b.nextUid) (storage : b.storage.Extends b'.storage)
    (ready : s'.Ready b'.storage)
    (bound : ∀ topic uid, uid ∈ b'.exchange.recipients topic →
      uid ∈ b.exchange.recipients topic ∨ uid = s.uid)
    (tickets : (s.tickets ++ taken).Perm (ids ++ s'.tickets))
    (events : b'.events = (b.events.doneAll ids).1)
    (carried : Carried b b' (b.events.doneAll ids).2) :
    Settles b b' (taken.map fun id => (s.uid, id)) ids := by
  have here : b.ticketsOf s.uid = s.tickets := by simp [ticketsOf, present]
  have after : b'.ticketsOf s.uid = s'.tickets := by simp [ticketsOf, found]
  have elsewhere : ∀ uid, uid ≠ s.uid → b'.ticketsOf uid = b.ticketsOf uid := by
    intro uid other
    simp [ticketsOf, found, other]
  have stays : ∀ uid, (b.session? uid).isSome = true → (b'.session? uid).isSome = true := by
    intro uid before
    rw [found]
    split
    · rfl
    · exact before
  have below := (housed.sessions s.uid s present).2.1
  have rehoused : b'.Housed := by
    refine ⟨?_, storage.intact housed.intact, ?_⟩
    · intro uid x entry
      rw [found] at entry
      rw [nextUid]
      split at entry
      · rename_i same
        cases entry
        exact ⟨own.trans same.symm, same ▸ below, ready⟩
      · obtain ⟨mine, within, old⟩ := housed.sessions uid x entry
        exact ⟨mine, within, old.extended storage⟩
    · intro topic uid receives
      rcases bound topic uid receives with before | rfl
      · exact stays uid (housed.bound topic uid before)
      · simp [found]
  refine ⟨rehoused, stays, ?_, ?_, events, carried⟩
  · intro uid id member
    by_cases same : uid = s.uid
    · subst same
      rw [after] at member
      rw [here]
      rcases List.mem_append.mp (tickets.symm.subset (List.mem_append_right ids member)) with
        old | new
      · exact Or.inl old
      · exact Or.inr (List.mem_map_of_mem new)
    · rw [elsewhere uid same] at member
      exact Or.inl member
  · intro id
    have counts := tickets.count_eq id
    rw [List.count_append, List.count_append] at counts
    have change := sum_range_change (f := fun uid => (b.ticketsOf uid).count id)
      (g := fun uid => (b'.ticketsOf uid).count id) below fun uid other => by
        rw [elsewhere uid other]
    simp only [here, after] at change
    have events : (taken.map fun id => (s.uid, id)).map Prod.snd = taken := by simp
    rw [events]
    unfold Broker.held
    rw [nextUid]
    omega

/-! Operations -/

theorem Housed.settles_putSession {b : Broker} (housed : b.Housed) {s : Session} (s' : Session)
    (present : b.session? s.uid = some s) (own : s'.uid = s.uid) (tickets : s'.tickets = s.tickets)
    (ready : s'.Ready b.storage) (stats : Stats) :
    Settles b (({ b with stats }).putSession s') [] [] := by
  refine housed.settles_session s' [] [] present (fun uid => ?_) own rfl (.refl _) ready
    (fun _ _ => Or.inl) (by simp [tickets]) rfl (carried_of_eq rfl fun _ _ => rfl)
  rw [session?_putSession, own]
  rfl

theorem Housed.settles_done {b : Broker} (housed : b.Housed) {uid : SessionUid}
    (present : (b.session? uid).isSome = true) (id : EventId) :
    Settles b (b.done id) [(uid, id)] [id] := by
  obtain ⟨s, here⟩ := Option.isSome_iff_exists.mp present
  obtain ⟨rfl, _, ready⟩ := housed.sessions uid s here
  have carried := b.doneAll_carried [id]
  obtain ⟨reported, connections, frame⟩ := b.doneAll_frame [id]
  unfold done
  rw [frame] at carried ⊢
  refine housed.settles_session s [id] [id] here (fun uid => ?_) rfl rfl (.refl _) ready
    (fun _ _ => Or.inl) List.perm_append_comm rfl carried
  split
  · rename_i same
    subst same
    exact here
  · rfl

theorem Housed.settles_pushGranted {b : Broker} (housed : b.Housed) {s : Session}
    (present : b.session? s.uid = some s) {id : EventId}
    (entered : (b.events.event? id).isSome = true) (qos : QoS) :
    ∃ ids, Settles b (b.pushGranted s.uid id qos) [(s.uid, id)] ids := by
  obtain ⟨event, entry⟩ := Option.isSome_iff_exists.mp entered
  have ready := (housed.sessions s.uid s present).2.2
  simp only [pushGranted, present, entry]
  split
  · exact ⟨_, housed.settles_done (by simp [present]) id⟩
  · rename_i q queued _
    have pushed : ∀ stats, Settles b (({ b with stats }).putSession { s with
        queues := some { q with temporary := (q.temporary.push event.message).1 } }) [] [] :=
      housed.settles_putSession _ present rfl (by simp [Session.tickets, queued])
        fun x here => by cases here; exact ready q queued
    refine ⟨_, (pushed _).after ((pushed _).housed.settles_done ?_ id)⟩
    simp [session?_putSession]
  · rename_i q queued _
    split
    · exact ⟨_, housed.settles_done (by simp [present]) id⟩
    · rename_i durable pushed
      obtain ⟨queue, accepted, rfl⟩ := Option.map_eq_some_iff.mp pushed
      obtain ⟨tickets, closed⟩ := DurableQueue.push_tickets accepted
      obtain ⟨⟨opened, bucket⟩, subscribed⟩ := ready q queued
      refine ⟨[], housed.settles_session _ [id] [] present
        (fun uid => session?_putSession ..) rfl rfl (.refl _) (fun x here => ?_)
        (fun _ _ => Or.inl) ?_ rfl (carried_of_eq rfl fun _ _ => rfl)⟩
      · cases here
        exact ⟨⟨closed.trans opened, bucket⟩, subscribed⟩
      · simp [Session.tickets, queued, tickets]

theorem Housed.settles_push {b : Broker} (housed : b.Housed) {s : Session}
    (present : b.session? s.uid = some s) {id : EventId}
    (entered : (b.events.event? id).isSome = true) :
    ∃ ids, Settles b (b.push s.uid id) [(s.uid, id)] ids := by
  obtain ⟨event, entry⟩ := Option.isSome_iff_exists.mp entered
  simp only [push, present, entry]
  split
  · exact housed.settles_pushGranted present entered _
  · exact ⟨_, housed.settles_done (by simp [present]) id⟩

def turns (b : Broker) (uid : SessionUid) (activities : List DurableQueue.Activity) : Broker :=
  b.withQueue uid fun q m => q.turns m activities

theorem withQueue_turns {act : StoredQueue EventId → Storage.Memory → QueueWork EventId}
    (turns : ∀ q m, ∃ activities, act q m = q.turns m activities) (b : Broker)
    (uid : SessionUid) : ∃ activities, b.withQueue uid act = b.turns uid activities := by
  unfold Broker.turns withQueue
  split
  · exact ⟨[], rfl⟩
  · split
    · exact ⟨[], rfl⟩
    · rename_i q _
      obtain ⟨activities, same⟩ := turns q.durable b.storage
      exact ⟨activities, by rw [same]⟩

theorem settle_turns (b : Broker) (uid : SessionUid) (now : Nat) (time : Int64) :
    ∃ activities, (b.withQueue uid fun q m => q.settle m now time) = b.turns uid activities := by
  refine withQueue_turns (fun q m => ?_) b uid
  unfold StoredQueue.settle StoredQueue.turns StoredQueue.work
  cases m.find? q.handle with
  | none => exact ⟨[], rfl⟩
  | some bucket =>
      obtain ⟨activities, same⟩ := q.queue.settle_turns bucket now time m.failing
      exact ⟨activities, by simp only [same]⟩

theorem tick_turns (b : Broker) (uid : SessionUid) (now : Nat) (time : Int64) :
    ∃ activities, (b.withQueue uid fun q m => q.tick m now time) = b.turns uid activities := by
  refine withQueue_turns (fun q m => ?_) b uid
  unfold StoredQueue.tick StoredQueue.turns StoredQueue.work
  cases m.find? q.handle with
  | none => exact ⟨[], rfl⟩
  | some bucket =>
      obtain ⟨activities, same⟩ := q.queue.tick_turns bucket now time m.failing
      exact ⟨activities, by simp only [same]⟩

theorem Housed.settles_turns {b : Broker} (housed : b.Housed) (uid : SessionUid)
    (activities : List DurableQueue.Activity) :
    ∃ ids, Settles b (b.turns uid activities) [] ids := by
  unfold turns withQueue
  split
  · exact ⟨_, housed.settles_refl⟩
  · rename_i s present
    split
    · exact ⟨_, housed.settles_refl⟩
    · rename_i q queued
      obtain ⟨rfl, _, ready⟩ := housed.sessions uid s present
      obtain ⟨⟨opened, bucket⟩, subscribed⟩ := ready q queued
      obtain ⟨tickets, closed, handle, more⟩ := q.durable.turns_tickets b.storage activities
      dsimp only
      generalize q.durable.turns b.storage activities = w at tickets closed handle more ⊢
      -- the session and the storage have changed before the events are done with
      generalize changed : ({ b with storage := w.memory }).putSession
        { s with queues := some { q with durable := w.queue } } = x
      have before : Carried b x [] := by
        subst changed
        exact carried_of_eq rfl fun _ _ => rfl
      have carried := before.trans (x.doneAll_carried (w.done ++ w.refused))
      obtain ⟨reported, connections, frame⟩ := x.doneAll_frame (w.done ++ w.refused)
      rw [frame] at carried ⊢
      subst changed
      refine ⟨w.done ++ w.refused, housed.settles_session _ [] _ present
        (fun uid => session?_putSession ..) rfl rfl more (fun x here => ?_)
        (fun _ _ => Or.inl) ?_ rfl carried⟩
      · cases here
        exact ⟨⟨closed.trans opened, by rw [handle]; exact more.keeps _ bucket⟩, subscribed⟩
      · simp [Session.tickets, queued, tickets]

def useQueues (b : Broker) (uid : SessionUid) (use : SessionQueues → SessionQueues) : Broker :=
  match b.session? uid with
  | none => b
  | some s => b.putSession { s with queues := s.queues.map use }

theorem Housed.settles_useQueues {b : Broker} (housed : b.Housed) (uid : SessionUid)
    {use : SessionQueues → SessionQueues}
    (quiet : ∀ q, (use q).durable.handle = q.durable.handle ∧
      (use q).durable.queue.tickets = q.durable.queue.tickets ∧
      (use q).durable.queue.closed = q.durable.queue.closed) :
    Settles b (b.useQueues uid use) [] [] := by
  unfold useQueues
  split
  · exact housed.settles_refl
  · rename_i s present
    obtain ⟨rfl, _, ready⟩ := housed.sessions uid s present
    refine housed.settles_putSession { s with queues := s.queues.map use } present rfl ?_
      (fun x here => ?_) b.stats
    · cases queued : s.queues with
      | none => simp [Session.tickets, queued]
      | some q => simp [Session.tickets, queued, quiet q]
    · obtain ⟨q, queued, rfl⟩ := Option.map_eq_some_iff.mp here
      obtain ⟨handle, _, closed⟩ := quiet q
      obtain ⟨⟨opened, bucket⟩, subscribed⟩ := ready q queued
      exact ⟨⟨closed.trans opened, by rw [handle]; exact bucket⟩, subscribed⟩

theorem closeQueues_frame (b : Broker) (s : Session) (cleanup : Bool) :
    ∃ stats inflight, (b.closeQueues s cleanup).2 = { s with queues := none, inflight } ∧
      ((s.queues = none ∧ (b.closeQueues s cleanup).1 = { b with stats }) ∨
        ∃ q w, s.queues = some q ∧ w = q.durable.close b.storage b.clock cleanup ∧
          (b.closeQueues s cleanup).1 =
            { ({ b with storage := w.memory }).doneAll (w.done ++ w.refused) with stats }) := by
  unfold closeQueues
  cases queued : s.queues <;> cases cleanup
  · exact ⟨_, _, rfl, Or.inl ⟨rfl, rfl⟩⟩
  · exact ⟨_, _, rfl, Or.inl ⟨rfl, rfl⟩⟩
  · exact ⟨_, _, rfl, Or.inr ⟨_, _, rfl, rfl, rfl⟩⟩
  · exact ⟨_, _, rfl, Or.inr ⟨_, _, rfl, rfl, rfl⟩⟩

theorem closeQueues_stats (b : Broker) (s : Session) :
    (b.closeQueues s true).1.stats =
      { b.stats with inflights := b.stats.inflights.subtract s.inflight.entries.length } := by
  unfold closeQueues
  split
  · rfl
  · rename_i q _
    let w := q.durable.close b.storage b.clock true
    obtain ⟨_, _, frame⟩ :=
      ({ b with storage := w.memory } : Broker).doneAll_frame (w.done ++ w.refused)
    simp only [if_true, Inflight.clear]
    rw [frame]

theorem Housed.settles_closeQueues {b : Broker} (housed : b.Housed) {s : Session} (s' : Session)
    (present : b.session? s.uid = some s) (own : s'.uid = s.uid) (queues : s'.queues = s.queues)
    (cleanup : Bool) :
    ∃ ids, Settles b
      ((b.closeQueues s' cleanup).1.putSession (b.closeQueues s' cleanup).2) [] ids := by
  have ready := (housed.sessions s.uid s present).2.2
  obtain ⟨stats, inflight, closed, ⟨none, same⟩ | ⟨q, w, queued, work, same⟩⟩ :=
    b.closeQueues_frame s' cleanup
  · rw [closed, same]
    refine ⟨[], housed.settles_putSession { s' with queues := Option.none, inflight } present own ?_
      (fun _ here => nomatch here) stats⟩
    simp [Session.tickets, ← queues, none]
  · rw [queues] at queued
    obtain ⟨tickets, more⟩ := StoredQueue.close_tickets (ready q queued).1 b.clock cleanup
    rw [← work] at tickets more
    have before : Carried b { b with storage := w.memory } [] :=
      carried_of_eq rfl fun _ _ => rfl
    have carried := before.trans
      (({ b with storage := w.memory } : Broker).doneAll_carried (w.done ++ w.refused))
    obtain ⟨reported, connections, frame⟩ :=
      ({ b with storage := w.memory } : Broker).doneAll_frame (w.done ++ w.refused)
    rw [closed, same]
    rw [frame] at carried ⊢
    refine ⟨w.done ++ w.refused,
      housed.settles_session { s' with queues := none, inflight } [] _ present (fun uid => ?_) own rfl
        more (fun _ here => nomatch here) (fun _ _ => Or.inl) ?_ rfl ⟨carried.reports, carried.acks⟩⟩
    · rw [session?_putSession, ← own]
      rfl
    · simp [Session.tickets, queued, tickets]

theorem Housed.provide_ready {b b' : Broker} {s s' : Session} (housed : b.Housed)
    (present : b.session? s.uid = some s) (provided : b.provide s = .ok (b', s')) :
    (∃ storage, b' = { b with storage }) ∧ b.storage.Extends b'.storage ∧
      s'.tickets = s.tickets ∧ ∀ q, s'.queues = some q → q.durable.Ready b'.storage := by
  have ready := (housed.sessions s.uid s present).2.2
  rcases provide_ok provided with ⟨_, rfl, rfl⟩ | ⟨unsubscribed, opened⟩
  · exact ⟨⟨_, rfl⟩, .refl _, rfl, fun q queued => (ready q queued).1⟩
  · obtain ⟨storage, handle, bucket, rfl, rfl⟩ := openQueues_ok opened
    obtain ⟨more, found⟩ := Storage.Memory.bucket_extends bucket
    have none : s.queues = none := by
      cases queued : s.queues with
      | none => rfl
      | some q =>
          have subscribed := (ready q queued).2
          rw [unsubscribed] at subscribed
          cases subscribed
    refine ⟨⟨_, rfl⟩, more, ?_, fun q here => ?_⟩
    · simp [Session.tickets, none, freshQueues, DurableQueue.new, DurableQueue.tickets,
        DurableQueue.unstored]
    · cases here
      exact ⟨rfl, found housed.intact⟩

theorem Housed.settles_subscribe {b b' : Broker} (housed : b.Housed) {uid : SessionUid}
    {filter : String} {qos : QoS} {added : Bool}
    (subscribed : b.subscribe uid filter qos = .ok (b', added)) : Settles b b' [] [] := by
  obtain ⟨topic, s, start, ready, parsed, present, live, provided, entering⟩ :=
    subscribe_ok subscribed
  obtain ⟨rfl, _, _⟩ := housed.sessions uid s present
  obtain ⟨_, own, _, _⟩ := provide_frame provided
  obtain ⟨⟨storage, rfl⟩, more, tickets, queues⟩ := housed.provide_ready present provided
  have settles : ∀ (x : Session) (exchange : Exchange) (stats : Stats), x.uid = ready.uid →
      x.queues = ready.queues → x.isSubscribed = true →
      (∀ name w, w ∈ exchange.recipients name → w ∈ b.exchange.recipients name ∨ w = s.uid) →
      Settles b (({ b with storage, exchange, stats }).putSession x) [] [] := by
    intro x exchange stats named kept subscribed bound
    refine housed.settles_session x [] [] present (fun uid => ?_) (named.trans own) rfl more
      (fun q here => ⟨queues q (kept ▸ here), subscribed⟩) bound ?_ rfl
      (carried_of_eq rfl fun _ _ => rfl)
    · rw [session?_putSession, named, own]
      rfl
    · have same : x.tickets = ready.tickets := by rw [Session.tickets, kept, Session.tickets]
      simp [same, tickets]
  have some : ∀ x : Session, x.info.subscriptions = ready.info.subscriptions.insert filter qos →
      x.isSubscribed = true := by
    intro x same
    rw [Session.isSubscribed, same]
    simpa using Table.insert_ne_nil filter qos ready.info.subscriptions
  obtain ⟨info, rfl, ⟨held, rfl⟩ | ⟨new, exchange, bound, stats, binding, rfl⟩⟩ :=
    enterSubscription_ok entering
  · exact settles _ b.exchange b.stats rfl rfl (some _ rfl) fun _ _ => Or.inl
  · refine settles _ exchange stats rfl rfl (some _ rfl) ?_
    intro name w receives
    rcases (Exchange.mem_recipients_bind binding).mp receives with before | ⟨rfl, _⟩
    · exact Or.inl before
    · exact Or.inr own

theorem Housed.settles_unsubscribe {b b' : Broker} (housed : b.Housed) {uid : SessionUid}
    {filter : String} {removed : Bool}
    (unsubscribed : b.unsubscribe uid filter = .ok (b', removed)) :
    ∃ ids, Settles b b' [] ids := by
  obtain rfl | ⟨s, exchange, stats, matcher, info, present, unbound, dropped⟩ :=
    unsubscribe_ok unsubscribed
  · exact ⟨_, housed.settles_refl⟩
  · obtain ⟨rfl, _, ready⟩ := housed.sessions uid s present
    have first : Settles b { b with exchange, stats } [] [] :=
      housed.settles_nothing rfl rfl unbound (.refl _) rfl (carried_of_eq rfl fun _ _ => rfl)
    rcases dropped with ⟨subscribed, rfl⟩ | rfl
    · exact ⟨_, first.after (first.housed.settles_putSession { s with matcher, info } present rfl
        rfl (fun q queued => ⟨(ready q queued).1, subscribed⟩) stats)⟩
    · obtain ⟨ids, closed⟩ := first.housed.settles_closeQueues { s with matcher, info } present rfl
        rfl true
      exact ⟨ids, first.after closed⟩

theorem isolate_session? (b : Broker) (s : Session) (uid : SessionUid) :
    (b.isolate s).session? uid = b.session? uid := by
  unfold isolate
  dsimp only
  split <;> rfl

theorem Housed.settles_isolate {b : Broker} (housed : b.Housed) (s : Session) :
    Settles b (b.isolate s) [] [] := by
  have fewer : ∀ topic w, w ∈ (b.exchange.unbindAll s.uid).1.recipients topic →
      w ∈ b.exchange.recipients topic := fun topic w => Exchange.mem_recipients_unbindAll
  unfold isolate
  dsimp only
  split
  · rename_i conn _
    exact housed.settles_nothing rfl rfl fewer (.refl _) rfl
      (carried_of_eq rfl fun _ _ => kick_acks ..)
  · exact housed.settles_nothing rfl rfl fewer (.refl _) rfl (carried_of_eq rfl fun _ _ => rfl)

theorem Housed.settles_retire {b : Broker} (housed : b.Housed) {s : Session} (s' : Session)
    (present : b.session? s.uid = some s) (own : s'.uid = s.uid) (queues : s'.queues = s.queues)
    (cleanup : Bool) : ∃ ids, Settles b (b.retire s' cleanup).1 [] ids := by
  obtain ⟨ids, closed⟩ := housed.settles_closeQueues s' present own queues cleanup
  refine ⟨ids, ?_⟩
  unfold retire
  dsimp only
  split
  · split
    · rename_i storage deleted
      exact closed.before
        (closed.housed.settles_aside (Storage.Memory.deleteEntry_extends deleted) _ _ _ _)
    · exact closed
  · exact closed

theorem Housed.settles_closeSession {b : Broker} (housed : b.Housed) (uid : SessionUid)
    (cleanup : Bool) : ∃ ids, Settles b (b.closeSession uid cleanup).1 [] ids := by
  unfold closeSession
  split
  · exact ⟨_, housed.settles_refl⟩
  · rename_i s present
    obtain ⟨rfl, _, _⟩ := housed.sessions uid s present
    split
    · exact ⟨_, housed.settles_refl⟩
    · have isolated := housed.settles_isolate s
      have still : (b.isolate s).session? s.uid = some s := by
        rw [isolate_session?]
        exact present
      obtain ⟨ids, retired⟩ := isolated.housed.settles_retire
        { s with closed := true, client := none, inflight := s.inflight.close } still rfl rfl cleanup
      exact ⟨ids, isolated.after retired⟩

theorem Housed.settles_create {b : Broker} (housed : b.Housed) (id : String) (clean : Bool) :
    Settles b (b.create id clean).1 [] [] := by
  have fresh : b.session? b.nextUid = none := session?_unused fun uid s present =>
    ⟨(housed.sessions uid s present).1, (housed.sessions uid s present).2.1⟩
  have found : ∀ uid, (b.create id clean).1.session? uid = if uid = b.nextUid then
      some (Session.new b.nextUid { id, cleanSession := clean } b.settings.mqtt)
      else b.session? uid := fun uid => session?_putSession ..
  have same : ∀ uid, (b.create id clean).1.ticketsOf uid = b.ticketsOf uid := by
    intro uid
    rw [ticketsOf, found, ticketsOf]
    split
    · rename_i new
      rw [new, fresh]
      rfl
    · rfl
  have stays : ∀ uid, (b.session? uid).isSome = true →
      ((b.create id clean).1.session? uid).isSome = true := by
    intro uid present
    rw [found]
    split
    · rfl
    · exact present
  have none : b.ticketsOf b.nextUid = [] := by simp [ticketsOf, fresh]
  have rehoused : (b.create id clean).1.Housed := by
    refine ⟨?_, housed.intact, ?_⟩
    · intro uid s present
      rw [found] at present
      split at present
      · rename_i new
        cases present
        exact ⟨new.symm, by rw [new]; exact Nat.lt_succ_self _, fun q here => nomatch here⟩
      · obtain ⟨own, below, ready⟩ := housed.sessions uid s present
        exact ⟨own, Nat.lt_succ_of_lt below, ready⟩
    · intro topic uid receives
      exact stays uid (housed.bound topic uid receives)
  refine ⟨rehoused, stays, ?_, ?_, rfl, carried_of_eq rfl fun _ _ => rfl⟩
  · intro uid e member
    rw [same] at member
    exact Or.inl member
  · intro e
    have next : (b.create id clean).1.nextUid = b.nextUid + 1 := rfl
    simp [Broker.held, next, same, Finset.sum_range_succ, none]

theorem Housed.settles_connection {b : Broker} (housed : b.Housed) {c : Connection}
    (silent : ∀ out, c.outgoing = some out → out.replies = []) :
    Settles b (b.newConnection.1.putConnection c) [] [] := by
  refine housed.settles_nothing rfl rfl (fun _ _ => id) (.refl _) rfl
    ⟨fun _ => rfl, fun conn id => ?_⟩
  simp only [acks, newConnection, putConnection, Table.get?_insert]
  split
  · cases sending : c.outgoing with
    | none => simp [sending]
    | some out => simp [sending, silent out sending]
  · exact Nat.le_refl _

theorem retainSet_extends (r r' : RetainStore) (m m' : Storage.Memory) (p : Publish)
    (kept : r.set m p = (r', .ok m')) : m.Extends m' := by
  unfold RetainStore.set at kept
  split at kept
  · exact Storage.Memory.deleteEntry_extends (Prod.mk.inj kept).2
  · dsimp only at kept
    split at kept
    · cases kept
    · rename_i stored
      cases kept
      exact Storage.Memory.setEntry_extends stored

theorem Housed.settles_keep {b : Broker} (housed : b.Housed) (p : Publish) :
    Settles b (b.keep p) [] [] := by
  unfold keep
  split
  · split
    · rename_i kept
      exact housed.settles_aside (retainSet_extends _ _ _ _ _ kept) _ _ _ _
    · exact housed.settles_aside (.refl _) _ _ _ _
  · exact housed.settles_refl

theorem Housed.announces {b : Broker} (housed : b.Housed) (p : Publish) (c : Completion) :
    ∃ x message, Settles b x [] [] ∧
      (b.announce p c).1 = (x.enter message (b.announce p c).2.2.length c).1 ∧
      ∀ uid ∈ (b.announce p c).2.2, (x.session? uid).isSome = true := by
  have kept := housed.settles_keep p
  unfold announce
  generalize b.keep p = x at kept ⊢
  dsimp only
  generalize x.stats.countRoute _ = stats
  have counted : Settles x { x with stats } [] [] :=
    kept.housed.settles_aside (.refl _) _ _ _ _
  exact ⟨_, _, kept.before counted, rfl, fun uid receives => kept.housed.bound _ uid receives⟩

end Broker

end MqttBroker
