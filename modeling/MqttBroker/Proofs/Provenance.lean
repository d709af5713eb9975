import MqttBroker.Proofs.Binary
import MqttBroker.Proofs.DurableWriter
import MqttBroker.Proofs.Sessions

/-!
Where the messages of a durable queue come from. What is in a queue and its bucket was pushed into
the queue, if the bucket was empty when the queue was opened.
-/

namespace MqttBroker

def Record.From (P : Publish → Prop) (r : Record) : Prop :=
  ∃ p, P p ∧ r.data = Codec.Binary.encode p

def StoredMessage.From (P : Publish → Prop) (m : StoredMessage) : Prop :=
  ∃ p rest, P p ∧ Codec.Binary.decode (Codec.Binary.encode p) = some (m.message, rest)

namespace DurableQueue

variable {τ : Type} {P : Publish → Prop}

structure Within (P : Publish → Prop) (q : DurableQueue τ) (b : Bucket) : Prop where
  unstored : ∀ e ∈ q.unstored, P e.2
  records : ∀ r ∈ b.records, r.From P
  passing : ∀ records, q.reading = .passing records → ∀ r ∈ records, r.From P
  outbox : ∀ m ∈ q.outbox, m.From P

theorem new_within (options : QueueOptions) (outCapacity now : Nat) {b : Bucket}
    (empty : b.records = []) : Within P (new options outCapacity now : DurableQueue τ) b where
  unstored _ member := nomatch member
  records r member := by
    rw [empty] at member
    cases member
  passing _ passing := nomatch passing
  outbox _ member := nomatch member

theorem Within.push {q q' : DurableQueue τ} {b : Bucket} (within : Within P q b) {ticket : τ}
    {p : Publish} (holds : P p) (pushed : q.push ticket p = some q') : Within P q' b := by
  unfold DurableQueue.push at pushed
  split at pushed
  · cases pushed
  · cases pushed
    refine { within with unstored := fun e member => ?_ }
    simp only [DurableQueue.unstored, ← List.append_assoc] at member
    rcases List.mem_append.mp member with before | new
    · exact within.unstored e before
    · rw [List.mem_singleton.mp new]
      exact holds

theorem Within.stored {q : DurableQueue τ} {b : Bucket} (within : Within P q b) (time : Int64) :
    ∀ r ∈ (b.put time q.batch).1.records, r.From P := by
  intro r member
  rcases List.mem_append.mp member with before | new
  · exact within.records r before
  · simp only [Bucket.batch, batch, List.mem_map] at new
    obtain ⟨⟨offset, data⟩, paired, rfl⟩ := new
    obtain ⟨e, buffered, rfl⟩ := List.mem_map.mp (List.of_mem_zip paired).2
    exact ⟨e.2, within.unstored e (List.mem_append_left _ buffered), rfl⟩

theorem Within.performed {q q' : DurableQueue τ} {b b' : Bucket} {a : Activity} {done : List τ}
    (within : Within P q b) (turn : Performed q b a q' b' done) : Within P q' b' := by
  cases turn with
  | idle => exact within
  | received next room =>
      refine { within with unstored := fun e member => within.unstored e ?_ }
      simpa [DurableQueue.unstored, next] using member
  | waited => exact { within with }
  | stored now time writeTimer filled =>
      refine { within with unstored := fun e member => ?_, records := within.stored time }
      exact within.unstored e (List.mem_append_right _ member)
  | unreadable =>
      refine { within with passing := fun records passing => ?_ }
      cases passing
  | rested now waits called none =>
      exact { within with }
  | fetched now waits called some =>
      refine { within with passing := fun records passing r member => ?_ }
      cases passing
      exact within.records r (List.mem_filter.mp (List.mem_of_mem_take member)).1
  | finished =>
      refine { within with passing := fun records passing => ?_ }
      cases passing
  | skipped now fails reads unread =>
      refine { within with passing := fun records passing r member => ?_ }
      cases passing
      exact within.passing _ reads r (List.mem_cons_of_mem _ member)
  | passed now fails reads decoded room =>
      rename_i r rest message left
      refine { within with
        passing := fun records passing r member => ?_, outbox := fun m member => ?_ }
      · cases passing
        exact within.passing _ reads r (List.mem_cons_of_mem _ member)
      · rcases List.mem_append.mp member with before | new
        · exact within.outbox m before
        · rw [List.mem_singleton.mp new]
          obtain ⟨p, holds, data⟩ := within.passing _ reads r (List.mem_cons_self ..)
          exact ⟨p, left, holds, data ▸ decoded⟩
  | retried =>
      refine { within with passing := fun records passing => ?_ }
      cases passing
  | collected => exact { within with }
  | deleted now fails deleteTimer =>
      refine { within with records := fun r member => within.records r ?_ }
      exact (deleteRuns_sublist ..).subset member
  | unswept => exact { within with }
  | swept now time sweepTimer limit =>
      refine { within with records := fun r member => within.records r ?_ }
      exact (List.mem_filter.mp member).1

theorem Within.performAll {q : DurableQueue τ} {b : Bucket} (within : Within P q b)
    (activities : List Activity) :
    Within P (q.performAll b activities).1 (q.performAll b activities).2.1 := by
  induction activities generalizing q b with
  | nil => exact within
  | cons a rest ih => exact ih (within.performed (perform_performed q b a))

end DurableQueue

theorem StoredQueue.Drained.within {τ : Type} {P : Publish → Prop} {q q' : StoredQueue τ}
    {b : Bucket} (drained : q.Drained q') (within : q.queue.Within P b) : q'.queue.Within P b where
  unstored := drained.unstored ▸ within.unstored
  records := within.records
  passing := drained.reading ▸ within.passing
  outbox m member := within.outbox m (drained.outbox member)

end MqttBroker
