import Mathlib.Data.List.DropRight
import MqttBroker.Broker.Routing
import MqttBroker.Proofs.Ledger
import MqttBroker.Proofs.Settling
import MqttBroker.Proofs.Tallies

/-!
Temporary queues over any calls. A queue holds the first or the last of the messages that it was
given, by its rule. What it accepted was received in order, or is still there, or was dropped and
counted, or was discarded with the queue. Every pushed event is done with in its own push.
-/

namespace MqttBroker

theorem take_take_append {α : Type} (n : Nat) (l l' : List α) :
    (l.take n ++ l').take n = (l ++ l').take n := by
  rw [List.take_append, List.take_append, List.take_take, Nat.min_self, List.length_take]
  by_cases short : l.length ≤ n
  · rw [Nat.min_eq_right short]
  · have none : n - min n l.length = n - l.length := by omega
    rw [none]

theorem rtake_rtake_append {α : Type} (n : Nat) (l l' : List α) :
    (l.rtake n ++ l').rtake n = (l ++ l').rtake n := by
  unfold List.rtake
  rw [List.drop_append, List.drop_append, List.drop_drop, List.length_append, List.length_append,
    List.length_drop]
  congr 2 <;> omega

namespace TemporaryQueue

inductive Call
  | push (event : EventId)
  | receive
  | close
deriving DecidableEq

inductive Answer
  | pushed (outcome : Outcome)
  | received (p : Publish)
  | ended
  | waits
  | closed
  | unknown
deriving DecidableEq

/-- The messages that a full queue drops for a message that is pushed. -/
def dropped (q : TemporaryQueue) (p : Publish) : List Publish :=
  if q.closed then []
  else if q.messages.length < q.capacity then []
  else match q.overrun with
    | .current => [p]
    | .early => q.messages.take 1

structure Exchanges (q q' : TemporaryQueue) (taken gone : List Publish) : Prop where
  capacity : q'.capacity = q.capacity
  overrun : q'.overrun = q.overrun
  closed : q'.closed = q.closed
  late : q.closed = true → taken = []
  bounded : q'.messages.length ≤ q.capacity
  order : q'.messages.Sublist (q.messages ++ taken)
  balance : (q.messages ++ taken).Perm (q'.messages ++ gone)

def keep (capacity : Nat) (overrun : Overrun) (messages : List Publish) : List Publish :=
  match overrun with
  | .current => messages.take capacity
  | .early => messages.rtake capacity

structure Course (κ : Type) where
  queue : TemporaryQueue
  gauge : Gauge
  events : Ledger κ
  orders : List κ := []
  accepted : List Publish := []
  received : List Publish := []
  lost : List Publish := []
  discarded : List Publish := []

namespace Course

variable {κ : Type}

def start (capacity : Nat) (overrun : Overrun) (gauge : Gauge) (events : Ledger κ) : Course κ :=
  { queue := .new capacity overrun, gauge, events }

def step (c : Course κ) : Call → Course κ × Answer
  | .push id =>
    match c.events.event? id with
    | none => (c, .unknown)
    | some event =>
      let (queue, outcome) := c.queue.push event.message
      let (events, orders) := c.events.done id
      ({ c with
         queue, events
         gauge := if outcome = .overran then c.gauge.increment else c.gauge
         orders := c.orders ++ orders
         accepted := c.accepted ++ if outcome = .refused then [] else [event.message]
         lost := c.lost ++ c.queue.dropped event.message }, .pushed outcome)
  | .receive =>
    match c.queue.pop with
    | (queue, some p) => ({ c with queue, received := c.received ++ [p] }, .received p)
    | (_, none) => (c, if c.queue.closed then .ended else .waits)
  | .close =>
    ({ c with queue := c.queue.close, discarded := c.discarded ++ c.queue.messages }, .closed)

def run (c : Course κ) (calls : List Call) : Course κ := calls.foldl (fun c x => (c.step x).1) c

def messages (events : Ledger κ) (ids : List EventId) : List Publish :=
  ids.filterMap fun id => (events.event? id).map Event.message

def pushes (calls : List Call) : List EventId :=
  calls.filterMap fun
    | .push id => some id
    | _ => none

/-- Every message that was accepted is in one place, in order, and every drop is counted. -/
structure Accounted (capacity : Nat) (overrun : Overrun) (before : Nat) (c : Course κ) : Prop where
  room : c.queue.capacity = max capacity 1
  rule : c.queue.overrun = overrun
  bounded : c.queue.messages.length ≤ max capacity 1
  order : (c.received ++ c.queue.messages).Sublist c.accepted
  balance : ∀ p, c.accepted.count p = c.received.count p + c.queue.messages.count p +
    c.lost.count p + c.discarded.count p
  counted : c.gauge.Shows (before + c.lost.length)
  emptied : c.queue.closed = true → c.queue.messages = []

end Course

/-! What a push does -/

theorem push_closed {q : TemporaryQueue} (closed : q.closed = true) (p : Publish) :
    q.push p = (q, .refused) ∧ q.dropped p = [] := by
  unfold push dropped
  rw [if_pos closed, if_pos closed]
  exact ⟨rfl, rfl⟩

theorem push_room {q : TemporaryQueue} (opened : q.closed = false)
    (room : q.messages.length < q.capacity) (p : Publish) :
    q.push p = ({ q with messages := q.messages ++ [p] }, .queued) ∧ q.dropped p = [] := by
  unfold push dropped
  simp only [opened, Bool.false_eq_true, if_false, if_pos room, and_self]

theorem push_full {q : TemporaryQueue} (opened : q.closed = false)
    (full : ¬ q.messages.length < q.capacity) (p : Publish) :
    (q.overrun = .current ∧ q.push p = (q, .overran) ∧ q.dropped p = [p]) ∨
      (q.overrun = .early ∧
        q.push p = ({ q with messages := q.messages.tail ++ [p] }, .overran) ∧
        q.dropped p = q.messages.take 1) := by
  unfold push dropped
  simp only [opened, Bool.false_eq_true, if_false, if_neg full]
  cases q.overrun with
  | current => exact Or.inl ⟨rfl, rfl, rfl⟩
  | early => exact Or.inr ⟨rfl, rfl, rfl⟩

theorem push_exchanges {q : TemporaryQueue} (least : 1 ≤ q.capacity)
    (bounded : q.messages.length ≤ q.capacity) (p : Publish) :
    q.Exchanges (q.push p).1 (if (q.push p).2 = .refused then [] else [p]) (q.dropped p) := by
  by_cases closed : q.closed = true
  · obtain ⟨pushed, nothing⟩ := push_closed closed p
    rw [pushed, nothing, if_pos rfl]
    exact ⟨rfl, rfl, rfl, fun _ => rfl, bounded, List.sublist_append_left .., .refl _⟩
  · have opened := Bool.eq_false_iff.mpr closed
    by_cases room : q.messages.length < q.capacity
    · obtain ⟨pushed, nothing⟩ := push_room opened room p
      rw [pushed, nothing, if_neg nofun]
      refine ⟨rfl, rfl, rfl, fun late => absurd late closed, ?_, .refl _, ?_⟩
      · rw [List.length_append, List.length_singleton]
        omega
      · rw [List.append_nil]
    · rcases push_full opened room p with ⟨_, pushed, gone⟩ | ⟨_, pushed, gone⟩
      · rw [pushed, gone, if_neg nofun]
        exact ⟨rfl, rfl, rfl, fun late => absurd late closed, bounded,
          List.sublist_append_left .., .refl _⟩
      · rw [pushed, gone, if_neg nofun]
        cases held : q.messages with
        | nil =>
            rw [held, List.length_nil] at room
            omega
        | cons first rest =>
            rw [held] at bounded
            refine ⟨rfl, rfl, rfl, fun late => absurd late closed, ?_, ?_, ?_⟩
            · simpa using bounded
            · rw [held]
              exact List.sublist_cons_self first (rest ++ [p])
            · rw [held]
              exact (List.perm_append_comm : List.Perm ([first] ++ (rest ++ [p])) _)

theorem length_dropped {q : TemporaryQueue} (least : 1 ≤ q.capacity) (p : Publish) :
    (q.dropped p).length = if (q.push p).2 = .overran then 1 else 0 := by
  by_cases closed : q.closed = true
  · obtain ⟨pushed, nothing⟩ := push_closed closed p
    rw [pushed, nothing]
    rfl
  · have opened := Bool.eq_false_iff.mpr closed
    by_cases room : q.messages.length < q.capacity
    · obtain ⟨pushed, nothing⟩ := push_room opened room p
      rw [pushed, nothing]
      rfl
    · rcases push_full opened room p with ⟨_, pushed, gone⟩ | ⟨_, pushed, gone⟩
      · rw [pushed, gone]
        rfl
      · rw [pushed, gone, if_pos rfl, List.length_take]
        omega

theorem keep_short {capacity : Nat} {messages : List Publish} (short : messages.length ≤ capacity)
    (overrun : Overrun) : keep capacity overrun messages = messages := by
  cases overrun with
  | current => exact List.take_of_length_le short
  | early =>
      have none : messages.length - capacity = 0 := by omega
      change messages.drop _ = messages
      rw [none, List.drop_zero]

/-- An open queue keeps what it keeps by its rule of all that it holds and the message. -/
theorem push_keeps {q : TemporaryQueue} (opened : q.closed = false) (least : 1 ≤ q.capacity)
    (bounded : q.messages.length ≤ q.capacity) (p : Publish) :
    (q.push p).1 = { q with messages := keep q.capacity q.overrun (q.messages ++ [p]) } := by
  have longer : (q.messages ++ [p]).length = q.messages.length + 1 := by simp
  by_cases room : q.messages.length < q.capacity
  · rw [(push_room opened room p).1, keep_short (by omega)]
  · have full : q.messages.length = q.capacity := by omega
    rcases push_full opened room p with ⟨current, pushed, _⟩ | ⟨early, pushed, _⟩
    · have same : (q.messages ++ [p]).take q.capacity = q.messages := by
        rw [← full, List.take_left]
      simp only [pushed, keep, current, same]
      rw [← current]
    · have one : (q.messages ++ [p]).length - q.capacity = 1 := by omega
      have same : (q.messages ++ [p]).rtake q.capacity = q.messages.tail ++ [p] := by
        have nonempty : q.messages ≠ [] := by
          intro none
          rw [none, List.length_nil] at full
          omega
        rw [List.rtake, one, List.drop_one, List.tail_append_of_ne_nil nonempty]
      simp only [pushed, keep, early, same]

theorem keep_keep_append (capacity : Nat) (overrun : Overrun) (front back : List Publish) :
    keep capacity overrun (keep capacity overrun front ++ back) =
      keep capacity overrun (front ++ back) := by
  cases overrun with
  | current => exact take_take_append ..
  | early => exact rtake_rtake_append ..

namespace Course

variable {κ : Type} {capacity before : Nat} {overrun : Overrun} {c : Course κ}

/-! What a call does -/

theorem step_push (c : Course κ) {id : EventId} {event : Event}
    (entered : c.events.event? id = some event) :
    c.step (.push id) = ({ c with
      queue := (c.queue.push event.message).1
      events := (c.events.done id).1
      gauge := if (c.queue.push event.message).2 = .overran then c.gauge.increment else c.gauge
      orders := c.orders ++ (c.events.done id).2
      accepted := c.accepted ++
        if (c.queue.push event.message).2 = .refused then [] else [event.message]
      lost := c.lost ++ c.queue.dropped event.message },
        .pushed (c.queue.push event.message).2) := by
  simp only [step, entered]

theorem step_push_unknown {id : EventId} (absent : c.events.event? id = none) :
    c.step (.push id) = (c, .unknown) := by
  simp only [step, absent]

/-- Whoever receives is given the first message and leaves the others, or waits if there is none,
unless the queue is closed. -/
theorem step_receive (c : Course κ) :
    c.step .receive = match c.queue.messages with
      | [] => (c, if c.queue.closed then .ended else .waits)
      | first :: rest =>
        ({ c with
           queue := { c.queue with messages := rest }, received := c.received ++ [first] },
          .received first) := by
  cases held : c.queue.messages <;> simp only [step, pop, held]

theorem start_accounted (capacity : Nat) (overrun : Overrun) {gauge : Gauge} {before : Nat}
    (shows : gauge.Shows before) (events : Ledger κ) :
    Accounted capacity overrun before (start capacity overrun gauge events) where
  room := rfl
  rule := rfl
  bounded := Nat.zero_le _
  order := List.Sublist.refl _
  balance _ := rfl
  counted := shows
  emptied _ := rfl

theorem Accounted.push (accounted : Accounted capacity overrun before c) (id : EventId) :
    Accounted capacity overrun before (c.step (.push id)).1 := by
  cases entered : c.events.event? id with
  | none =>
      rw [step_push_unknown entered]
      exact accounted
  | some event =>
      obtain ⟨room, rule, bounded, order, balance, counted, emptied⟩ := accounted
      have least : 1 ≤ c.queue.capacity := by omega
      have exchanges := push_exchanges least (by omega) event.message
      have lost := length_dropped least event.message
      rw [step_push c entered]
      generalize (if (c.queue.push event.message).2 = .refused then [] else [event.message]) =
        taken at exchanges ⊢
      refine ⟨exchanges.capacity.trans room, exchanges.overrun.trans rule,
        room ▸ exchanges.bounded, ?_, fun p => ?_, ?_, fun shut => ?_⟩
      · have later : (c.received ++ (c.queue.messages ++ taken)).Sublist (c.accepted ++ taken) := by
          rw [← List.append_assoc]
          exact order.append_right taken
        exact (exchanges.order.append_left c.received).trans later
      · have whole := balance p
        have moved := exchanges.balance.count_eq p
        simp only [List.count_append] at moved ⊢
        omega
      · by_cases overran : (c.queue.push event.message).2 = .overran
        · rw [if_pos overran] at lost ⊢
          refine counted.increment ?_
          rw [List.length_append]
          omega
        · rw [if_neg overran] at lost ⊢
          rw [List.length_append, lost]
          exact counted
      · have before : c.queue.closed = true := exchanges.closed.symm.trans shut
        have nothing := exchanges.order
        rw [emptied before, exchanges.late before] at nothing
        exact List.sublist_nil.mp nothing

theorem Accounted.receive (accounted : Accounted capacity overrun before c) :
    Accounted capacity overrun before (c.step .receive).1 := by
  obtain ⟨room, rule, bounded, order, balance, counted, emptied⟩ := accounted
  rw [step_receive]
  cases held : c.queue.messages with
  | nil => exact ⟨room, rule, bounded, order, balance, counted, emptied⟩
  | cons first rest =>
      rw [held] at bounded order emptied
      refine ⟨room, rule, ?_, ?_, fun p => ?_, counted, fun closed => nomatch emptied closed⟩
      · exact Nat.le_of_succ_le bounded
      · rw [List.append_assoc]
        exact order
      · have whole := balance p
        have parts : first :: rest = [first] ++ rest := rfl
        rw [held, parts, List.count_append] at whole
        simp only [List.count_append]
        omega

theorem Accounted.close (accounted : Accounted capacity overrun before c) :
    Accounted capacity overrun before (c.step .close).1 := by
  obtain ⟨room, rule, _, order, balance, counted, _⟩ := accounted
  refine ⟨room, rule, Nat.zero_le _, ?_, fun p => ?_, counted, fun _ => rfl⟩
  · exact ((List.nil_sublist c.queue.messages).append_left _).trans order
  · have whole := balance p
    change c.accepted.count p =
      c.received.count p + 0 + c.lost.count p + (c.discarded ++ c.queue.messages).count p
    rw [List.count_append]
    omega

theorem step_accounted (accounted : Accounted capacity overrun before c) (call : Call) :
    Accounted capacity overrun before (c.step call).1 := by
  cases call with
  | push id => exact accounted.push id
  | receive => exact accounted.receive
  | close => exact accounted.close

theorem run_accounted (accounted : Accounted capacity overrun before c) (calls : List Call) :
    Accounted capacity overrun before (c.run calls) := by
  induction calls generalizing c with
  | nil => exact accounted
  | cons call rest ih => exact ih (step_accounted accounted call)

/-! What is done with the events -/

theorem done_unknown {events : Ledger κ} {id : EventId} (absent : events.event? id = none) :
    events.done id = (events, []) := by
  have none : events.entries.get? id = none := Option.map_eq_none_iff.mp absent
  rw [Ledger.done, none]

theorem messages_doneAll (events : Ledger κ) (ids others : List EventId) :
    messages (events.doneAll ids).1 others = messages events others := by
  unfold messages
  exact List.filterMap_congr fun other _ => events.doneAll_message ids other

theorem messages_append (events : Ledger κ) (ids more : List EventId) :
    messages events (ids ++ more) = messages events ids ++ messages events more :=
  List.filterMap_append

theorem pushes_cons (call : Call) (rest : List Call) :
    pushes (call :: rest) = pushes [call] ++ pushes rest := by
  unfold pushes
  rw [← List.filterMap_append]
  rfl

theorem step_events (c : Course κ) (call : Call) :
    (c.step call).1.events = (c.events.doneAll (pushes [call])).1 ∧
      (c.step call).1.orders = c.orders ++ (c.events.doneAll (pushes [call])).2 := by
  cases call with
  | push id =>
      change _ = (c.events.done id).1 ∧ _ = c.orders ++ ((c.events.done id).2 ++ [])
      rw [List.append_nil]
      cases entered : c.events.event? id with
      | none =>
          rw [step_push_unknown entered, done_unknown entered, List.append_nil]
          exact ⟨rfl, rfl⟩
      | some event =>
          rw [step_push c entered]
          exact ⟨rfl, rfl⟩
  | receive =>
      simp only [step]
      split <;> exact ⟨rfl, (List.append_nil _).symm⟩
  | close => exact ⟨rfl, (List.append_nil _).symm⟩

theorem doneAll_append (events : Ledger κ) (ids more : List EventId) :
    (events.doneAll (ids ++ more)).1 = ((events.doneAll ids).1.doneAll more).1 ∧
      (events.doneAll (ids ++ more)).2 =
        (events.doneAll ids).2 ++ ((events.doneAll ids).1.doneAll more).2 := by
  induction ids generalizing events with
  | nil => exact ⟨rfl, rfl⟩
  | cons id rest ih =>
      obtain ⟨events', orders⟩ := ih (events.done id).1
      refine ⟨events', ?_⟩
      change (events.done id).2 ++ ((events.done id).1.doneAll (rest ++ more)).2 = _
      rw [orders, ← List.append_assoc]
      rfl

theorem run_events (c : Course κ) (calls : List Call) :
    (c.run calls).events = (c.events.doneAll (pushes calls)).1 ∧
      (c.run calls).orders = c.orders ++ (c.events.doneAll (pushes calls)).2 := by
  induction calls generalizing c with
  | nil => exact ⟨rfl, (List.append_nil _).symm⟩
  | cons call rest ih =>
      obtain ⟨events, orders⟩ := c.step_events call
      obtain ⟨events', orders'⟩ := ih (c.step call).1
      obtain ⟨whole, given⟩ := doneAll_append c.events (pushes [call]) (pushes rest)
      rw [pushes_cons, whole, given, ← events, ← List.append_assoc, ← orders]
      exact ⟨events', orders'⟩

/-! What is accepted, and what is kept of it -/

theorem step_closed (c : Course κ) (call : Call) :
    (c.step call).1.queue.closed = (c.queue.closed || decide (call = .close)) := by
  cases call with
  | push id =>
      rw [decide_eq_false (fun other => nomatch other), Bool.or_false]
      cases entered : c.events.event? id with
      | none => rw [step_push_unknown entered]
      | some event =>
          rw [step_push c entered]
          simp only [TemporaryQueue.push]
          repeat' split
          all_goals rfl
  | receive =>
      rw [decide_eq_false (fun other => nomatch other), Bool.or_false, step_receive]
      cases c.queue.messages <;> rfl
  | close =>
      rw [decide_eq_true rfl, Bool.or_true]
      rfl

theorem run_closed (c : Course κ) (calls : List Call) :
    (c.run calls).queue.closed = (c.queue.closed || decide (.close ∈ calls)) := by
  induction calls generalizing c with
  | nil => simp [run]
  | cons call rest ih =>
      refine (ih _).trans ?_
      rw [step_closed, Bool.or_assoc]
      congr 1
      by_cases here : call = .close <;> simp [here, eq_comm]

theorem step_accepted (c : Course κ) (call : Call) :
    (c.step call).1.accepted =
      c.accepted ++ if c.queue.closed then [] else messages c.events (pushes [call]) := by
  cases call with
  | push id =>
      change _ = c.accepted ++ if c.queue.closed then [] else messages c.events [id]
      cases entered : c.events.event? id with
      | none =>
          rw [step_push_unknown entered]
          simp [messages, entered]
      | some event =>
          have own : messages c.events [id] = [event.message] := by simp [messages, entered]
          rw [step_push c entered, own]
          cases closed : c.queue.closed with
          | true => simp [push_closed closed]
          | false =>
              by_cases free : c.queue.messages.length < c.queue.capacity
              · simp [push_room closed free]
              · rcases push_full closed free event.message with ⟨_, pushed, _⟩ | ⟨_, pushed, _⟩
                · simp [pushed]
                · simp [pushed]
  | receive =>
      simp only [step]
      split <;> simp [pushes, messages]
  | close => simp [step, pushes, messages]

theorem run_accepted (c : Course κ) (calls : List Call) :
    (c.run calls).accepted = c.accepted ++ if c.queue.closed then []
      else messages c.events (pushes (calls.takeWhile (· ≠ .close))) := by
  induction calls generalizing c with
  | nil =>
      change c.accepted = c.accepted ++ if c.queue.closed then [] else []
      rw [ite_self, List.append_nil]
  | cons call rest ih =>
      refine (ih _).trans ?_
      rw [step_accepted, step_closed, List.append_assoc]
      cases closed : c.queue.closed with
      | true => rfl
      | false =>
          by_cases last : call = .close
          · subst last
            rfl
          · have goes : (call :: rest).takeWhile (· ≠ .close) =
                call :: rest.takeWhile (· ≠ .close) := List.takeWhile_cons_of_pos (by simpa using last)
            have same : messages (c.step call).1.events (pushes (rest.takeWhile (· ≠ .close))) =
                messages c.events (pushes (rest.takeWhile (· ≠ .close))) := by
              rw [(c.step_events call).1, messages_doneAll]
            rw [goes, same, pushes_cons call (rest.takeWhile _), messages_append,
              decide_eq_false last]
            rfl

theorem Accounted.push_keeps (accounted : Accounted capacity overrun before c)
    (opened : c.queue.closed = false) (id : EventId) :
    (c.step (.push id)).1.queue.messages =
      keep (max capacity 1) overrun (c.queue.messages ++ messages c.events [id]) := by
  obtain ⟨room, rule, bounded, _⟩ := accounted
  cases entered : c.events.event? id with
  | none =>
      have nothing : messages c.events [id] = [] := by simp [messages, entered]
      rw [step_push_unknown entered, nothing, List.append_nil, keep_short bounded]
  | some event =>
      have own : messages c.events [id] = [event.message] := by simp [messages, entered]
      rw [step_push c entered, own, ← room, ← rule]
      change (c.queue.push event.message).1.messages = _
      rw [TemporaryQueue.push_keeps opened (by omega) (by omega)]

theorem Accounted.pushAll (accounted : Accounted capacity overrun before c)
    (opened : c.queue.closed = false) (ids : List EventId) :
    (c.run (ids.map .push)).queue.messages =
      keep (max capacity 1) overrun (c.queue.messages ++ messages c.events ids) := by
  induction ids generalizing c with
  | nil =>
      change c.queue.messages = keep _ _ (c.queue.messages ++ [])
      rw [List.append_nil, keep_short accounted.bounded]
  | cons id rest ih =>
      have kept := accounted.push_keeps opened id
      have opened' : (c.step (.push id)).1.queue.closed = false := by
        rw [step_closed, opened]
        rfl
      have same : messages (c.step (.push id)).1.events rest = messages c.events rest := by
        rw [(c.step_events (.push id)).1, messages_doneAll]
      have parts : messages c.events (id :: rest) =
          messages c.events [id] ++ messages c.events rest := messages_append c.events [id] rest
      refine (ih (accounted.push id) opened').trans ?_
      rw [kept, same, keep_keep_append, parts, List.append_assoc]

end Course

/-- Of all messages that a queue is given it keeps the first or the last, up to its capacity. It
drops and counts the others, and gives the first of what it kept to whoever receives, who waits only
while it is open and has none. Each event is done with once, as it is pushed. -/
theorem queue_keeps_by_rule {κ : Type} (capacity : Nat) (overrun : Overrun) {gauge : Gauge}
    {before : Nat} (shows : gauge.Shows before) (events : Ledger κ) (calls : List Call) :
    let c := (Course.start capacity overrun gauge events).run calls
    c.queue.messages.length ≤ max capacity 1 ∧
      c.accepted = Course.messages events (Course.pushes (calls.takeWhile (· ≠ .close))) ∧
      (c.received ++ c.queue.messages).Sublist c.accepted ∧
      c.accepted.Perm (c.received ++ c.queue.messages ++ c.lost ++ c.discarded) ∧
      c.gauge.Shows (before + c.lost.length) ∧
      c.events = (events.doneAll (Course.pushes calls)).1 ∧
      c.orders = (events.doneAll (Course.pushes calls)).2 ∧
      (c.step .receive = match c.queue.messages with
        | [] => (c, if .close ∈ calls then .ended else .waits)
        | first :: rest =>
          ({ c with
             queue := { c.queue with messages := rest }, received := c.received ++ [first] },
            .received first)) ∧
      (.close ∉ calls → ∀ ids, (c.run (ids.map .push)).queue.messages =
        keep (max capacity 1) overrun (c.queue.messages ++ Course.messages events ids)) ∧
      (.close ∈ calls → c.queue.messages = [] ∧ (c.step .receive).2 = .ended ∧
        ∀ id event, c.events.event? id = some event →
          (c.step (.push id)).2 = .pushed .refused) := by
  intro c
  have accounted : Course.Accounted capacity overrun before c :=
    Course.run_accounted (Course.start_accounted capacity overrun shows events) calls
  have closed : c.queue.closed = decide (.close ∈ calls) :=
    (Course.run_closed _ calls).trans (Bool.false_or _)
  have accepted : c.accepted =
      Course.messages events (Course.pushes (calls.takeWhile (· ≠ .close))) :=
    (Course.run_accepted _ calls).trans (List.nil_append _)
  obtain ⟨ledger, orders⟩ := (Course.start capacity overrun gauge events).run_events calls
  refine ⟨accounted.bounded, accepted, accounted.order, ?_, accounted.counted, ledger, orders,
    ?_, fun stays ids => ?_, fun ends => ?_⟩
  · refine List.perm_iff_count.mpr fun p => ?_
    rw [accounted.balance, List.count_append, List.count_append, List.count_append]
  · rw [Course.step_receive, closed]
    simp only [decide_eq_true_eq]
  · have opened : c.queue.closed = false := closed.trans (decide_eq_false stays)
    have same : Course.messages c.events ids = Course.messages events ids := by
      change Course.messages (Course.run _ calls).events ids = _
      rw [ledger, Course.messages_doneAll]
      rfl
    rw [accounted.pushAll opened, same]
  · have shut : c.queue.closed = true := closed.trans (decide_eq_true ends)
    have nothing := accounted.emptied shut
    refine ⟨nothing, ?_, fun id event entered => ?_⟩
    · simp only [Course.step, pop, nothing, shut, if_true]
    · rw [Course.step_push c entered, (push_closed shut event.message).1]

/-! Four messages for a queue with room for two, which is closed before the last -/

def letter (payload : UInt8) : Publish := { qos := .atMostOnce, topic := "a", payload := [payload] }

def letters : Ledger Nat :=
  { entries := [(0, .new (letter 0) 1, 10), (1, .new (letter 1) 2, 11), (2, .new (letter 2) 1, 12),
      (3, .new (letter 3) 1, 13)]
    next := 4 }

def afternoon : List Call := [.push 0, .push 1, .push 2, .receive, .close, .push 3]

theorem letters_kept_by_rule : Gauge.Shows {} 0 ∧
    let c := (Course.start 2 .early {} letters).run afternoon
    c.received = [letter 1] ∧ c.lost = [letter 0] ∧ c.discarded = [letter 2] ∧
      c.accepted.Perm [letter 1, letter 0, letter 2] ∧ c.gauge.Shows 1 ∧
      c.orders = [10, 12, 13] ∧ c.queue.messages = [] ∧ (c.step .receive).2 = .ended ∧
    let full := (Course.start 2 .early {} letters).run (afternoon.take 3)
    (full.step .receive).2 = .received (letter 1) ∧
      (full.step .receive).1.queue.messages = [letter 2] := by
  have none : Gauge.Shows {} 0 := ⟨rfl, fun _ => rfl⟩
  obtain ⟨_, _, _, placed, counted, _, orders, _, _, ended⟩ :=
    queue_keeps_by_rule 2 .early none letters afternoon
  obtain ⟨_, _, _, _, _, _, _, receives, _⟩ :=
    queue_keeps_by_rule 2 .early none letters (afternoon.take 3)
  obtain ⟨empty, last, _⟩ := ended (by decide)
  refine ⟨none, by decide, by decide, by decide, placed, counted, orders, empty, last, ?_⟩
  intro full
  exact ⟨congrArg Prod.snd receives, congrArg (fun r => r.1.queue.messages) receives⟩

end TemporaryQueue

end MqttBroker
