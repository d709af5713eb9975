import MqttBroker.Broker.Session
import MqttBroker.Proofs.DurableWriter
import MqttBroker.Proofs.Memory

/-!
The tickets of the messages that a durable queue has not stored. Whatever the queue does, the
tickets that it gives up are those that it is done with.
-/

namespace MqttBroker

namespace DurableQueue

variable {τ : Type}

def tickets (q : DurableQueue τ) : List τ := q.unstored.map Prod.fst

theorem push_tickets {q q' : DurableQueue τ} {ticket : τ} {p : Publish}
    (pushed : q.push ticket p = some q') :
    q'.tickets = q.tickets ++ [ticket] ∧ q'.closed = q.closed := by
  unfold push at pushed
  split at pushed
  · cases pushed
  · cases pushed
    simp [tickets, unstored]

theorem pop_tickets (q : DurableQueue τ) :
    q.pop.1.tickets = q.tickets ∧ q.pop.1.closed = q.closed := by
  unfold pop
  split <;> exact ⟨rfl, rfl⟩

theorem acknowledge_tickets (q : DurableQueue τ) (offset : Nat) :
    (q.acknowledge offset).tickets = q.tickets ∧ (q.acknowledge offset).closed = q.closed := by
  unfold acknowledge
  split <;> exact ⟨rfl, rfl⟩

theorem Performed.tickets {q q' : DurableQueue τ} {b b' : Bucket} {a : Activity} {done : List τ}
    (turn : Performed q b a q' b' done) : q.tickets = done ++ q'.tickets := by
  cases turn with
  | received waits room => simp [DurableQueue.tickets, unstored, waits]
  | stored now time writeTimer some => simp [DurableQueue.tickets, unstored]
  | _ => rfl

theorem performAll_tickets (q : DurableQueue τ) (b : Bucket) (activities : List Activity) :
    q.tickets = (q.performAll b activities).2.2 ++ (q.performAll b activities).1.tickets ∧
      (q.performAll b activities).1.closed = q.closed := by
  induction activities generalizing q b with
  | nil => exact ⟨rfl, rfl⟩
  | cons a rest ih =>
      have turn := perform_performed q b a
      obtain ⟨later, still⟩ := ih (q.perform b a).1 (q.perform b a).2.1
      simp only [performAll]
      refine ⟨?_, still.trans turn.closed⟩
      rw [List.append_assoc, ← later, ← turn.tickets]

theorem close_tickets {q : DurableQueue τ} (opened : q.closed = false) (b : Bucket) (time : Int64)
    (writeFails : Bool) (deleteFails : Nat × Nat → Bool) :
    q.tickets = (q.close b time writeFails deleteFails).2.2.1 ++
      (q.close b time writeFails deleteFails).2.2.2 := by
  simp only [close, opened, Bool.false_eq_true, if_false, finishWriting, tickets, unstored, waiting]
  rw [← List.map_append, List.append_assoc, List.take_append_drop]

end DurableQueue

namespace StoredQueue

variable {τ : Type}

def Ready (s : StoredQueue τ) (m : Storage.Memory) : Prop :=
  s.queue.closed = false ∧ (m.find? s.handle).isSome = true

theorem Ready.extended {s : StoredQueue τ} {m m' : Storage.Memory} (ready : s.Ready m)
    (more : m.Extends m') : s.Ready m' :=
  ⟨ready.1, more.keeps _ ready.2⟩

def turns (s : StoredQueue τ) (m : Storage.Memory) (activities : List DurableQueue.Activity) :
    QueueWork τ :=
  s.work m fun q b _ => q.performAll b activities

theorem turns_tickets (s : StoredQueue τ) (m : Storage.Memory)
    (activities : List DurableQueue.Activity) :
    s.queue.tickets = (s.turns m activities).done ++ (s.turns m activities).refused ++
        (s.turns m activities).queue.queue.tickets ∧
      (s.turns m activities).queue.queue.closed = s.queue.closed ∧
      (s.turns m activities).queue.handle = s.handle ∧
      m.Extends (s.turns m activities).memory := by
  unfold turns work
  split
  · exact ⟨rfl, rfl, rfl, .refl m⟩
  · rename_i b _
    obtain ⟨tickets, closed⟩ := s.queue.performAll_tickets b activities
    exact ⟨by simpa using tickets, closed, rfl, Storage.Memory.replace_extends ..⟩

theorem close_tickets {s : StoredQueue τ} {m : Storage.Memory} (ready : s.Ready m) (time : Int64)
    (clean : Bool) :
    s.queue.tickets = (s.close m time clean).done ++ (s.close m time clean).refused ∧
      m.Extends (s.close m time clean).memory := by
  obtain ⟨opened, found⟩ := ready
  obtain ⟨b, bucket⟩ := Option.isSome_iff_exists.mp found
  simp only [close, opened, Bool.false_eq_true, if_false, stop, bucket]
  exact ⟨DurableQueue.close_tickets opened ..,
    (Storage.Memory.replace_extends ..).trans (Storage.Memory.closeBucket_extends ..)⟩

end StoredQueue

namespace Session

def tickets (s : Session) : List EventId :=
  match s.queues with
  | none => []
  | some q => q.durable.queue.tickets

def Ready (s : Session) (m : Storage.Memory) : Prop :=
  ∀ q, s.queues = some q → q.durable.Ready m ∧ s.isSubscribed = true

theorem Ready.extended {s : Session} {m m' : Storage.Memory} (ready : s.Ready m)
    (more : m.Extends m') : s.Ready m' :=
  fun q queued => ⟨(ready q queued).1.extended more, (ready q queued).2⟩

end Session

end MqttBroker
