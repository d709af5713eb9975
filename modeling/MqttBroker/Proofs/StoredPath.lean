import MqttBroker.Proofs.Delivery
import MqttBroker.Proofs.DurableReader

/-!
The way of a session's messages through its bucket, from the queue that stores them to the client
that acknowledges them, over connections lost and resumed and queues closed and opened again. A
record leaves the bucket for a reason that is on record.
-/

namespace MqttBroker

open DurableQueue (Activity)

def InflightEntry.Carries (e : InflightEntry Nat) (r : Record) : Prop :=
  e.ticket = r.offset ∧ ∃ m, r.message? = some m ∧
    e.publish = { m.message with packetId := some e.id, qos := .atLeastOnce, dup := false }

structure StoredPath where
  settings : MqttSettings
  session : Session
  bucket : Bucket
  link : Link
  out : Option Outgoing := none
  gauge : Gauge := {}
  present : List Record := []
  emitted : List StoredMessage := []

inductive Happening
  | subscribe (now : Nat)
  | push (event : EventId) (message : Publish)
  | turn (a : Activity)
  | connect (now : Nat) (link : Link)
  | deliver (now : Nat)
  | disconnect
  | puback (id : PacketId)
  | unsubscribe (time : Int64) (writeFails : Bool) (deleteFails : Nat × Nat → Bool)
  | close (cleanup : Bool) (time : Int64) (writeFails : Bool) (deleteFails : Nat × Nat → Bool)
  | discard

namespace StoredPath

def start (settings : MqttSettings) (uid : SessionUid) (info : SessionInfo) (bucket : Bucket)
    (link : Link) : StoredPath :=
  { settings, session := .new uid info settings, bucket, link }

def queue? (s : StoredPath) : Option (DurableQueue EventId) :=
  s.session.queues.map fun q => q.durable.queue

def openQueues (s : StoredPath) (now : Nat) : StoredPath :=
  let queue := .new (.ofSettings s.settings) s.session.inflight.capacity now
  let temporary := .new s.settings.maxQos0Queue s.settings.qos0Overrun
  { s with
    session := { s.session with queues := some { temporary, durable := { handle := 0, queue } } }
    present := s.bucket.records, emitted := [] }

def turn (s : StoredPath) (q : SessionQueues) (a : Activity) : StoredPath :=
  let (queue, bucket, _) := q.durable.queue.perform s.bucket a
  { s with
    session := { s.session with queues := some { q with durable := { q.durable with queue } } }
    bucket, present := s.present ++ bucket.since s.bucket.next
    emitted := s.emitted ++ queue.outbox.drop q.durable.queue.outbox.length }

def disconnect (s : StoredPath) : StoredPath :=
  match s.out with
  | none => s
  | some out =>
    let inflight := if out.holding then s.session.inflight.release else s.session.inflight
    { s with out := none, session := { s.session with inflight } }

def after (s : StoredPath) (d : Delivery) : StoredPath :=
  let s := { s with session := d.session s.session, out := some d.out, link := d.link,
                    gauge := d.gauge }
  if d.failed then s.disconnect else s

def deliver (s : StoredPath) (now : Nat) : StoredPath :=
  match s.out with
  | none => s
  | some out =>
    match (Delivery.ofSession s.session out s.link s.gauge).next now with
    | none => s
    | some d => s.after d

def closeQueues (s : StoredPath) (cleanup : Bool) (time : Int64) (writeFails : Bool)
    (deleteFails : Nat × Nat → Bool) : StoredPath :=
  let bucket := match s.queue? with
    | none => s.bucket
    | some queue =>
      let (_, bucket, _, _) := queue.close s.bucket time writeFails deleteFails
      if cleanup then { name := s.bucket.name } else bucket
  let inflight := if cleanup then s.session.inflight.clear.1 else s.session.inflight
  { s with bucket, session := { s.session with queues := none, inflight } }

def step (s : StoredPath) : Happening → StoredPath
  | .subscribe now => if s.session.queues.isNone then s.openQueues now else s
  | .push event message =>
    match s.session.queues with
    | none => s
    | some q =>
      match q.durable.push event message with
      | none => s
      | some durable =>
        { s with session := { s.session with queues := some { q with durable } } }
  | .turn a =>
    match s.session.queues with
    | none => s
    | some q => s.turn q a
  | .connect now link =>
    let s := s.disconnect
    let d := Delivery.ofSession s.session { uid := s.session.uid } link s.gauge
    s.after (d.begin now)
  | .deliver now => s.deliver now
  | .disconnect => s.disconnect
  | .puback id =>
    match s.session.acknowledge id with
    | none => s
    | some session => { s with session }
  | .unsubscribe time writeFails deleteFails => s.closeQueues true time writeFails deleteFails
  | .close cleanup time writeFails deleteFails =>
    let s := s.disconnect.closeQueues cleanup time writeFails deleteFails
    { s with session := .new s.session.uid s.session.info s.settings }
  | .discard =>
    if s.session.queues.isNone then { s with bucket := { name := s.bucket.name } } else s

/-- What has happened before now, the last first, each with the state in which it happened. -/
abbrev Past := List (StoredPath × Happening)

def run : StoredPath → Past → List Happening → StoredPath × Past
  | s, past, [] => (s, past)
  | s, past, a :: rest => run (s.step a) ((s, a) :: past) rest

/-- The record can be spared: it holds no message, or since it was put its message was
acknowledged by the packet id of its entry in the window, or another message took that entry's
packet id. -/
inductive Released (r : Record) : Past → Prop
  | undecodable {past} : r.message? = none → Released r past
  | acknowledged {s id e past} : r ∈ s.bucket.records →
      s.session.inflight.find? id = some e → e.Carries r → Released r ((s, .puback id) :: past)
  | replaced {s now e f past} : r ∈ s.bucket.records →
      s.session.inflight.find? e.id = some e → e.Carries r →
      (s.step (.deliver now)).session.inflight.find? e.id = some f → f.seq ≠ e.seq →
      Released r ((s, .deliver now) :: past)
  | earlier {s a past} : r ∈ s.bucket.records → Released r past → Released r ((s, a) :: past)

def Expires (s : StoredPath) (r : Record) (a : Happening) : Prop :=
  ∃ queue now time limit, s.queue? = some queue ∧ a = .turn (.sweep now time false) ∧
    DurableQueue.expiryLimit queue.options.messageExpiry time = .ok (some limit) ∧
    r.time < Int64.ofInt limit

def Cleans : Happening → Prop
  | .unsubscribe _ _ _ => True
  | .close cleanup _ _ _ => cleanup = true
  | .discard => True
  | _ => False

structure Sound (s : StoredPath) (past : Past) : Prop where
  ordered : s.bucket.Ordered
  seqs : ∀ e ∈ s.session.inflight.entries, e.seq < s.session.inflight.nextSeq
  carries : ∀ e ∈ s.session.inflight.entries, s.bucket.Knows e.ticket e.Carries
  idle : s.queue? = none → s.session.inflight.entries = []
  batches : ∀ queue, s.queue? = some queue → 0 < queue.options.writeBatchSize
  reads : ∀ queue, s.queue? = some queue → queue.Reads s.bucket s.present s.emitted
  collected : ∀ queue, s.queue? = some queue → queue.Collected s.bucket (Released · past)

theorem start_sound (settings : MqttSettings) (uid : SessionUid) (info : SessionInfo)
    {bucket : Bucket} (ordered : bucket.Ordered) (link : Link) :
    Sound (start settings uid info bucket link) [] where
  ordered := ordered
  seqs := by simp [start, Session.new, Inflight.new]
  carries := by simp [start, Session.new, Inflight.new]
  idle := by simp [start, Session.new, Inflight.new]
  batches := by simp [start, queue?, Session.new]
  reads := by simp [start, queue?, Session.new]
  collected := by simp [start, queue?, Session.new]

theorem Sound.later {s : StoredPath} {past : Past} (sound : Sound s past) (a : Happening) :
    Sound s ((s, a) :: past) :=
  { sound with
    collected := fun queue opened => (sound.collected queue opened).mono (.refl sound.ordered)
      (fun _ member => member) fun _ member released => .earlier member released }

/-- The bucket and the queue are the same, and so is the window, but for the times at which
messages were last sent. -/
structure Calm (s s' : StoredPath) : Prop where
  bucket : s'.bucket = s.bucket
  present : s'.present = s.present
  emitted : s'.emitted = s.emitted
  queue : s'.queue? = s.queue?
  entries : s'.session.inflight.entries.map InflightEntry.body =
    s.session.inflight.entries.map InflightEntry.body
  nextSeq : s'.session.inflight.nextSeq = s.session.inflight.nextSeq

theorem Calm.refl (s : StoredPath) : Calm s s := ⟨rfl, rfl, rfl, rfl, rfl, rfl⟩

theorem Calm.trans {s s' s'' : StoredPath} (first : Calm s s') (second : Calm s' s'') :
    Calm s s'' :=
  ⟨second.bucket.trans first.bucket, second.present.trans first.present,
    second.emitted.trans first.emitted, second.queue.trans first.queue,
    second.entries.trans first.entries, second.nextSeq.trans first.nextSeq⟩

theorem carries_body {e f : InflightEntry Nat} (same : f.body = e.body) {r : Record}
    (carries : f.Carries r) : e.Carries r := by
  simp only [InflightEntry.body, Prod.mk.injEq] at same
  obtain ⟨id, _, ticket, publish⟩ := same
  unfold InflightEntry.Carries at carries ⊢
  rwa [id, ticket, publish] at carries

theorem Sound.calm {s s' : StoredPath} {past : Past} (sound : Sound s past) (calm : Calm s s') :
    Sound s' past where
  ordered := calm.bucket ▸ sound.ordered
  seqs := by
    intro e member
    obtain ⟨f, before, same⟩ := Inflight.mem_body calm.entries member
    have seq := sound.seqs f before
    rw [calm.nextSeq]
    simp only [InflightEntry.body, Prod.mk.injEq] at same
    omega
  carries := by
    intro e member
    obtain ⟨f, before, same⟩ := Inflight.mem_body calm.entries member
    have known := sound.carries f before
    have ticket : f.ticket = e.ticket := by
      simp only [InflightEntry.body, Prod.mk.injEq] at same
      exact same.2.2.1
    rw [calm.bucket, ← ticket]
    exact known.mono (.refl sound.ordered) fun _ _ carries => carries_body same carries
  idle := by
    intro none
    have empty := sound.idle (calm.queue ▸ none)
    have entries := calm.entries
    rw [empty] at entries
    exact List.map_eq_nil_iff.mp entries
  batches := calm.queue ▸ sound.batches
  reads := by
    rw [calm.queue, calm.bucket, calm.present, calm.emitted]
    exact sound.reads
  collected := by
    rw [calm.queue, calm.bucket]
    exact sound.collected

theorem disconnect_calm (s : StoredPath) : Calm s s.disconnect := by
  unfold disconnect
  split
  · exact .refl s
  · refine ⟨rfl, rfl, rfl, rfl, ?_, ?_⟩
    all_goals
      simp only
      split <;> rfl

theorem after_calm (s : StoredPath) (d : Delivery) :
    Calm { s with session := d.session s.session } (s.after d) := by
  have first : Calm { s with session := d.session s.session }
      { s with session := d.session s.session, out := some d.out, link := d.link,
               gauge := d.gauge } := ⟨rfl, rfl, rfl, rfl, rfl, rfl⟩
  unfold after
  simp only
  split
  · exact first.trans (disconnect_calm _)
  · exact first

theorem quiet_calm {s : StoredPath} {d d' : Delivery} (quiet : d.Quiet d') :
    Calm { s with session := d.session s.session } (s.after d') := by
  have queues := congrArg (Option.map fun durable => durable.queue) quiet.durable
  have first : Calm { s with session := d.session s.session }
      { s with session := d'.session s.session } :=
    ⟨rfl, rfl, rfl, by simpa [queue?, Delivery.session, Function.comp_def] using queues,
      quiet.entries, quiet.nextSeq⟩
  exact first.trans (after_calm s d')

/-! Each happening keeps the invariant. -/

theorem Sound.subscribe {s : StoredPath} {past : Past} (sound : Sound s past) (now : Nat) :
    Sound (s.step (.subscribe now)) ((s, .subscribe now) :: past) := by
  have sound := sound.later (.subscribe now)
  simp only [step]
  split
  · exact
      { ordered := sound.ordered
        seqs := sound.seqs
        carries := sound.carries
        idle := by simp [openQueues, queue?]
        batches := by
          intro queue opened
          simp only [openQueues, queue?, Option.map_some, Option.some.injEq] at opened
          subst opened
          simp only [DurableQueue.new, QueueOptions.ofSettings]
          omega
        reads := by
          intro queue opened
          simp only [openQueues, queue?, Option.map_some, Option.some.injEq] at opened
          subst opened
          exact DurableQueue.new_reads ..
        collected := by
          intro queue opened
          simp only [openQueues, queue?, Option.map_some, Option.some.injEq] at opened
          subst opened
          intro o member
          simp [DurableQueue.new] at member }
  · exact sound

theorem queue?_of {s : StoredPath} {q : SessionQueues} (opened : s.session.queues = some q) :
    s.queue? = some q.durable.queue := by
  simp [queue?, opened]

theorem Sound.requeue {s : StoredPath} {past : Past} (sound : Sound s past) {q : SessionQueues}
    {queue : DurableQueue EventId} {entries : List (InflightEntry Nat)} {permits : Nat}
    (fewer : ∀ e ∈ entries, e ∈ s.session.inflight.entries)
    (batches : 0 < queue.options.writeBatchSize)
    (reads : queue.Reads s.bucket s.present s.emitted)
    (collected : queue.Collected s.bucket (Released · past)) :
    Sound { s with session := { s.session with
      inflight := { s.session.inflight with entries, permits }
      queues := some { q with durable := { q.durable with queue } } } } past where
  ordered := sound.ordered
  seqs := fun e member => sound.seqs e (fewer e member)
  carries := fun e member => sound.carries e (fewer e member)
  idle := by simp [queue?]
  batches := by
    intro queue opened
    simp only [queue?, Option.map_some, Option.some.injEq] at opened
    exact opened ▸ batches
  reads := by
    intro queue opened
    simp only [queue?, Option.map_some, Option.some.injEq] at opened
    exact opened ▸ reads
  collected := by
    intro queue opened
    simp only [queue?, Option.map_some, Option.some.injEq] at opened
    exact opened ▸ collected

theorem Sound.push {s : StoredPath} {past : Past} (sound : Sound s past) (event : EventId)
    (message : Publish) :
    Sound (s.step (.push event message)) ((s, .push event message) :: past) := by
  have sound := sound.later (.push event message)
  simp only [step]
  split
  · exact sound
  · rename_i q opened
    have batches := sound.batches _ (queue?_of opened)
    have reads := sound.reads _ (queue?_of opened)
    have collected := sound.collected _ (queue?_of opened)
    unfold StoredQueue.push DurableQueue.push
    split
    · exact sound
    · rename_i durable pushed
      split at pushed
      · cases pushed
      · cases pushed
        exact sound.requeue (fun _ member => member) batches
          (reads.turnTo rfl rfl reads.held reads.rested) collected

theorem Sound.turn {s : StoredPath} {past : Past} (sound : Sound s past) (a : Activity) :
    Sound (s.step (.turn a)) ((s, .turn a) :: past) := by
  have sound := sound.later (.turn a)
  simp only [step]
  split
  · exact sound
  · rename_i q opened
    have batches := sound.batches _ (queue?_of opened)
    have reads := sound.reads _ (queue?_of opened)
    have collected := sound.collected _ (queue?_of opened)
    have turn := DurableQueue.perform_performed q.durable.queue s.bucket a
    have follows := turn.follows sound.ordered
    have undecodable : ∀ r ∈ s.bucket.records, Codec.Binary.decode r.data = none →
        Released r ((s, .turn a) :: past) := by
      intro r _ hidden
      exact .undecodable (by simp [Record.message?, hidden])
    exact
      { ordered := follows.ordered
        seqs := sound.seqs
        carries := fun e member => (sound.carries e member).mono follows fun _ _ carries => carries
        idle := by simp [StoredPath.turn, queue?]
        batches := by
          intro queue same
          simp only [StoredPath.turn, queue?, Option.map_some, Option.some.injEq] at same
          rw [← same, turn.options]
          exact batches
        reads := by
          intro queue same
          simp only [StoredPath.turn, queue?, Option.map_some, Option.some.injEq] at same
          exact same ▸ turn.reads sound.ordered batches reads
        collected := by
          intro queue same
          simp only [StoredPath.turn, queue?, Option.map_some, Option.some.injEq] at same
          exact same ▸ turn.keeps_collected sound.ordered collected
            (fun records passing => (reads.held records passing).1) undecodable }

theorem Sound.connect {s : StoredPath} {past : Past} (sound : Sound s past) (now : Nat)
    (link : Link) :
    Sound (s.step (.connect now link)) ((s, .connect now link) :: past) := by
  refine (sound.later _).calm ((disconnect_calm s).trans ?_)
  exact quiet_calm (Delivery.begin_quiet (Delivery.ofSession s.disconnect.session
    { uid := s.disconnect.session.uid } link s.disconnect.gauge) now)

theorem Sound.puback {s : StoredPath} {past : Past} (sound : Sound s past) (id : PacketId) :
    Sound (s.step (.puback id)) ((s, .puback id) :: past) := by
  have later := sound.later (.puback id)
  simp only [step, Session.acknowledge, Inflight.ack]
  split
  · exact later
  · rename_i session acknowledged
    split at acknowledged
    · cases acknowledged
    · rename_i inflight offset found
      split at found
      · cases found
      · rename_i e entry
        cases found
        cases acknowledged
        obtain ⟨member, _⟩ := Inflight.mem_of_find? entry
        have known : s.bucket.Knows e.ticket (Released · ((s, .puback id) :: past)) :=
          (sound.carries e member).mono (.refl sound.ordered)
            fun r inBucket carries => .acknowledged inBucket entry carries
        cases opened : s.session.queues with
        | none =>
            have empty := sound.idle (by simp [queue?, opened])
            simp [empty] at member
        | some q =>
            exact later.requeue (fun _ kept => Inflight.mem_without kept)
              (by simpa [DurableQueue.acknowledge_options] using sound.batches _ (queue?_of opened))
              ((later.reads _ (queue?_of opened)).acknowledge _)
              ((later.collected _ (queue?_of opened)).acknowledge known)

theorem pop_some {τ : Type} {q q' : StoredQueue τ} {m : StoredMessage}
    (popped : q.pop = (q', some m)) :
    ∃ rest, q.queue.outbox = m :: rest ∧
      q' = { q with queue := { q.queue with outbox := rest } } := by
  unfold StoredQueue.pop DurableQueue.pop at popped
  split at popped
  · rename_i queue next same
    split at same
    · cases same
      cases popped
    · rename_i n rest outbox
      cases same
      cases popped
      exact ⟨rest, outbox, rfl⟩

theorem replaced_released {s : StoredPath} {past : Past} {now : Nat} {m : StoredMessage}
    {w : Inflight Nat} {e f : InflightEntry Nat} {replaced : Option Nat} (sound : Sound s past)
    (entered : s.session.inflight.Entered m.offset m.message w e replaced)
    (entries : (s.step (.deliver now)).session.inflight.entries.map InflightEntry.body =
      w.entries.map InflightEntry.body)
    (before : s.session.inflight.find? e.id = some f) :
    s.bucket.Knows f.ticket (Released · ((s, .deliver now) :: past)) := by
  obtain ⟨member, id⟩ := Inflight.mem_of_find? before
  have found := Inflight.find?_body entries e.id
  rw [Inflight.find?_entered entered.entries, Option.map_some, Option.map_eq_some_iff] at found
  obtain ⟨g, found, same⟩ := found
  simp only [InflightEntry.body, Prod.mk.injEq] at same
  -- sequence numbers are not given twice, so that the entry found now is another
  have older := sound.seqs f member
  have newer : g.seq ≠ f.seq := by
    rw [same.2.1, entered.seq]
    omega
  apply (sound.carries f member).mono (.refl sound.ordered)
  intro r inBucket carries
  exact .replaced inBucket (id ▸ before) carries (id ▸ found) newer

theorem Sound.takenIn {s : StoredPath} {past : Past} (sound : Sound s past) {out : Outgoing}
    {now : Nat} {q : SessionQueues} {durable : StoredQueue EventId} {m : StoredMessage}
    (opened : s.session.queues = some q) (popped : q.durable.pop = (durable, some m))
    {d : Delivery}
    (quiet : Delivery.Quiet
      ((Delivery.ofSession s.session out s.link s.gauge).takeIn q durable m now).1 d)
    (leads : s.step (.deliver now) = s.after d) :
    Sound (s.after d) ((s, .deliver now) :: past) := by
  have later := sound.later (.deliver now)
  have calm := quiet_calm (s := s) quiet
  refine Sound.calm ?_ calm
  obtain ⟨rest, outbox, rfl⟩ := pop_some popped
  obtain ⟨waiting, reads⟩ := (later.reads _ (queue?_of opened)).pop outbox
  have batches := sound.batches _ (queue?_of opened)
  have collected : DurableQueue.Collected { q.durable.queue with outbox := rest } s.bucket
      (Released · ((s, .deliver now) :: past)) :=
    later.collected q.durable.queue (queue?_of opened)
  have entered := s.session.inflight.insert_entered m.offset m.message now
  have entries := calm.entries
  rw [← leads] at entries
  simp only [Delivery.takeIn, Delivery.ofSession, Delivery.session] at entries ⊢
  generalize s.session.inflight.insert m.offset m.message now = inserted at entered entries ⊢
  obtain ⟨w, e, replaced⟩ := inserted
  simp only at entered entries ⊢
  have carried : s.bucket.Knows e.ticket e.Carries := by
    rw [entered.ticket]
    apply (reads.faithful m waiting).mono (.refl sound.ordered)
    intro r _ holds
    exact ⟨entered.ticket.trans (Record.message?_offset holds), m, holds, entered.publish⟩
  constructor
  case ordered => exact sound.ordered
  case idle => simp [queue?]
  case seqs => exact entered.fresh sound.seqs
  case carries =>
    intro f member
    rcases entered.mem member with old | rfl
    · exact sound.carries f old
    · exact carried
  all_goals
    intro queue same
    simp only [queue?, Option.map_some, Option.some.injEq] at same
    subst same
  case batches =>
    cases replaced with
    | none => exact batches
    | some offset => simpa [StoredQueue.acknowledge, DurableQueue.acknowledge_options] using batches
  case reads =>
    cases replaced with
    | none => exact reads
    | some offset => exact reads.acknowledge offset
  case collected =>
    have which := entered.replaced
    cases gone : s.session.inflight.find? e.id with
    | none =>
        rw [gone, Option.map_none] at which
        subst which
        exact collected
    | some f =>
        rw [gone, Option.map_some] at which
        subst which
        have known := replaced_released sound entered entries gone
        exact collected.acknowledge known

theorem Sound.deliver {s : StoredPath} {past : Past} (sound : Sound s past) (now : Nat) :
    Sound (s.step (.deliver now)) ((s, .deliver now) :: past) := by
  have later := sound.later (.deliver now)
  cases connected : s.out with
  | none =>
      simp only [step, StoredPath.deliver, connected]
      exact later
  | some out =>
      cases next : (Delivery.ofSession s.session out s.link s.gauge).next now with
      | none =>
          simp only [step, StoredPath.deliver, connected, next]
          exact later
      | some d =>
          have leads : s.step (.deliver now) = s.after d := by
            simp only [step, StoredPath.deliver, connected, next]
          rw [leads]
          rcases Delivery.next_cases next with quiet | ⟨q, durable, m, opened, popped, quiet⟩
          · exact later.calm (quiet_calm quiet)
          · exact sound.takenIn opened popped quiet leads

theorem close_sound {s : StoredPath} {past : Past} (sound : Sound s past) (cleanup : Bool)
    (time : Int64) (writeFails : Bool) (deleteFails : Nat × Nat → Bool) :
    (s.closeQueues cleanup time writeFails deleteFails).bucket.Ordered := by
  simp only [closeQueues]
  split
  · exact sound.ordered
  · rename_i queue opened
    cases cleanup with
    | true => exact ⟨.nil, by simp⟩
    | false => exact (DurableQueue.close_follows queue sound.ordered ..).ordered

theorem Sound.closed {s : StoredPath} (ordered : s.bucket.Ordered)
    (closed : s.session.queues = none) (empty : s.session.inflight.entries = []) (past : Past) :
    Sound s past where
  ordered := ordered
  seqs := by simp [empty]
  carries := by simp [empty]
  idle := fun _ => empty
  batches := by simp [queue?, closed]
  reads := by simp [queue?, closed]
  collected := by simp [queue?, closed]

theorem step_sound {s : StoredPath} {past : Past} (sound : Sound s past) (a : Happening) :
    Sound (s.step a) ((s, a) :: past) := by
  cases a with
  | subscribe now => exact sound.subscribe now
  | push event message => exact sound.push event message
  | turn a => exact sound.turn a
  | connect now link => exact sound.connect now link
  | deliver now => exact sound.deliver now
  | disconnect => exact (sound.later .disconnect).calm (disconnect_calm s)
  | puback id => exact sound.puback id
  | unsubscribe time writeFails deleteFails =>
      refine Sound.closed ?_ rfl rfl _
      exact close_sound sound ..
  | close cleanup time writeFails deleteFails =>
      refine Sound.closed ?_ rfl rfl _
      exact close_sound (sound.calm (disconnect_calm s)) ..
  | discard =>
      simp only [step]
      split
      · rename_i closed
        have closed : s.session.queues = none := by simpa using closed
        have empty := sound.idle (by simp [queue?, closed])
        exact Sound.closed (s := { s with bucket := { name := s.bucket.name } })
          ⟨.nil, by simp⟩ closed empty _
      · exact sound.later .discard

theorem run_sound {s : StoredPath} {past : Past} (sound : Sound s past) (rest : List Happening) :
    Sound (run s past rest).1 (run s past rest).2 := by
  induction rest generalizing s past with
  | nil => exact sound
  | cons a rest ih => exact ih (step_sound sound a)

/-! What can be taken out of the bucket. -/

theorem close_released {s : StoredPath} {past : Past} (sound : Sound s past) {cleanup : Bool}
    {time : Int64} {writeFails : Bool} {deleteFails : Nat × Nat → Bool} {r : Record}
    (before : r ∈ s.bucket.records)
    (after : r ∉ (s.closeQueues cleanup time writeFails deleteFails).bucket.records) :
    cleanup = true ∨ Released r past := by
  simp only [closeQueues] at after
  split at after
  · exact absurd before after
  · rename_i queue opened
    cases cleanup with
    | true => exact Or.inl rfl
    | false =>
        have collected := DurableQueue.close_removed before after
        exact Or.inr ((sound.collected queue opened _ collected).2 r before rfl)

theorem deliver_bucket (s : StoredPath) (now : Nat) : (s.deliver now).bucket = s.bucket := by
  unfold StoredPath.deliver
  split
  · rfl
  · split
    · rfl
    · exact (after_calm s _).bucket

theorem removed_reason {s : StoredPath} {past : Past} (sound : Sound s past) {a : Happening}
    {r : Record} (before : r ∈ s.bucket.records) (after : r ∉ (s.step a).bucket.records) :
    Released r past ∨ s.Expires r a ∨ Cleans a := by
  cases a with
  | turn a =>
      simp only [step] at after
      split at after
      · exact absurd before after
      · rename_i q opened
        have turn := DurableQueue.perform_performed q.durable.queue s.bucket a
        rcases turn.removed before after with pending | ⟨now, time, limit, rfl, found, expired⟩
        · have known := sound.collected _ (queue?_of opened) _ (Or.inr pending)
          exact Or.inl (known.2 r before rfl)
        · exact Or.inr (Or.inl ⟨_, now, time, limit, queue?_of opened, rfl, found, expired⟩)
  | unsubscribe _ _ _ => exact Or.inr (Or.inr trivial)
  | discard => exact Or.inr (Or.inr trivial)
  | close cleanup time writeFails deleteFails =>
      have calm := disconnect_calm s
      have kept : r ∈ s.disconnect.bucket.records := calm.bucket ▸ before
      rcases close_released (sound.calm calm) kept after with clean | released
      · exact Or.inr (Or.inr clean)
      · exact Or.inl released
  | deliver now => exact absurd (deliver_bucket s now ▸ before) after
  | connect now link =>
      have kept := (after_calm s.disconnect ((Delivery.ofSession s.disconnect.session
        { uid := s.disconnect.session.uid } link s.disconnect.gauge).begin now)).bucket
      exact absurd (kept.trans (disconnect_calm s).bucket ▸ before) after
  | disconnect => exact absurd ((disconnect_calm s).bucket ▸ before) after
  | _ =>
      refine absurd before ?_
      simp only [step] at after
      repeat' split at after
      all_goals exact after

/-- A queue that is closed without cleanup and opened again reads out all that is in the bucket. -/
theorem reopened_emits {s : StoredPath} {past : Past} (sound : Sound s past) (time : Int64)
    (writeFails : Bool) (deleteFails : Nat × Nat → Bool) (now : Nat) :
    let closed := s.step (.close false time writeFails deleteFails)
    let reopened := closed.step (.subscribe now)
    reopened.bucket = closed.bucket ∧ ∃ queue, reopened.queue? = some queue ∧
      queue.Emits closed.bucket (closed.bucket.records.filterMap Record.message?) := by
  intro closed reopened
  have ordered := (step_sound sound (.close false time writeFails deleteFails)).ordered
  refine ⟨rfl, _, rfl, DurableQueue.new_emits ordered ?_ ..⟩
  simp only [QueueOptions.ofSettings]
  omega

/-- Whatever happens to a session's queue, its window and its connections, a record leaves the
bucket only for one of these reasons: it holds no message, its message was acknowledged by the
packet id of its entry in the window or had to give that packet id to another, it has expired, or
the bucket is closed with cleanup. At every time the reader has emitted, by increasing offset, the
messages of the records before its cursor. When the queue is closed without cleanup and opened
again, a receiver gets the messages of all records that are still in the bucket. -/
theorem removed_only_with_reason (settings : MqttSettings) (uid : SessionUid) (info : SessionInfo)
    {bucket : Bucket} (ordered : bucket.Ordered) (link : Link) (happenings : List Happening) :
    let now := run (start settings uid info bucket link) [] happenings
    (∀ a r, r ∈ now.1.bucket.records → r ∉ (now.1.step a).bucket.records →
      Released r now.2 ∨ now.1.Expires r a ∨ Cleans a) ∧
    (∀ queue, now.1.queue? = some queue →
      queue.Reads now.1.bucket now.1.present now.1.emitted) ∧
    ∀ time writeFails deleteFails later,
      let closed := now.1.step (.close false time writeFails deleteFails)
      let reopened := closed.step (.subscribe later)
      (∀ r ∈ now.1.bucket.records, ¬Released r now.2 → r ∈ closed.bucket.records) ∧
      reopened.bucket = closed.bucket ∧ ∃ queue, reopened.queue? = some queue ∧
        queue.Emits closed.bucket (closed.bucket.records.filterMap Record.message?) := by
  intro now
  have sound := run_sound (start_sound settings uid info ordered link) happenings
  refine ⟨fun a r before after => removed_reason sound before after, sound.reads, ?_⟩
  intro time writeFails deleteFails later
  refine ⟨fun r before kept => ?_, reopened_emits sound ..⟩
  by_cases after : r ∈ (now.1.step (.close false time writeFails deleteFails)).bucket.records
  · exact after
  · rcases removed_reason sound before after with released | ⟨_, _, _, _, _, other, _⟩ | cleans
    · exact absurd released kept
    · cases other
    · cases cleans

def acknowledgedMessage : List Happening :=
  [.subscribe 0, .push 0 (.new 0 "a" [1] .atLeastOnce), .turn .receive, .turn (.store 0 0 false),
    .turn (.read 0 false), .turn (.read 0 false), .connect 0 { address := "" }, .deliver 0,
    .deliver 0, .puback .one, .turn .collect]

theorem acknowledgedMessage_released :
    let now := run (start {} 1 ⟨"c", false, [], none, none⟩ { name := "c" } { address := "" }) []
      acknowledgedMessage
    let r : Record := ⟨1, 0, Codec.Binary.encode (.new 0 "a" [1] .atLeastOnce)⟩
    let a : Happening := .turn (.delete 0 fun _ => false)
    Released r now.2 ∨ now.1.Expires r a ∨ Cleans a :=
  (removed_only_with_reason {} 1 ⟨"c", false, [], none, none⟩ ⟨.nil, by simp⟩ { address := "" }
    acknowledgedMessage).1 _ _ (by decide) (by decide)

end StoredPath

end MqttBroker
