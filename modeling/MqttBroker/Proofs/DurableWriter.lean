import MqttBroker.Proofs.Binary
import MqttBroker.Proofs.Bucket
import MqttBroker.Proofs.DurableSteps
import MqttBroker.Proofs.Offsets

/-!
What a durable queue does with the messages that are pushed to it. The writer moves them to the
bucket in the order in which they were pushed, each once, and a message is done with when it is
stored and not before, unless the queue is closed without having been able to store it.
-/

namespace MqttBroker.DurableQueue

variable {τ : Type}

structure Wrote (b b' : Bucket) (batch : List (τ × Publish)) : Prop where
  ordered : b'.Ordered
  next : b'.next = b.next + batch.length
  offsets : (b'.since b.next).map Record.offset = List.range' b.next batch.length
  data : (b'.since b.next).map Record.data = batch.map fun entry => Codec.Binary.encode entry.2
  old : ∀ r ∈ b'.records, r.offset < b.next → r ∈ b.records

theorem Wrote.nothing {b : Bucket} (ordered : b.Ordered) : Wrote (τ := τ) b b [] :=
  { ordered
    next := rfl
    offsets := by rw [Bucket.since_next ordered]; rfl
    data := by rw [Bucket.since_next ordered]; rfl
    old := fun _ member _ => member }

theorem Wrote.put {b : Bucket} (ordered : b.Ordered) (time : Int64)
    (batch : List (τ × Publish)) :
    Wrote b (b.put time (batch.map fun entry => Codec.Binary.encode entry.2)).1 batch where
  ordered := ordered.put ..
  next := by simp [Bucket.put]
  offsets := by rw [Bucket.since_put ordered, Bucket.batch_offsets, List.length_map]
  data := by rw [Bucket.since_put ordered, Bucket.batch_data]
  old := by
    intro r member below
    rcases List.mem_append.mp member with old | added
    · exact old
    · have := (Bucket.mem_batch added).1
      omega

theorem deleteRuns_eq (runs : List (Nat × Nat)) (pending : List Nat) (b : Bucket)
    (fails : Nat × Nat → Bool) :
    deleteRuns runs pending b fails =
      (pending.filter fun o => !Offsets.within (runs.takeWhile fun run => !fails run) o,
       { b with records := b.records.filter fun r =>
           !Offsets.within (runs.takeWhile fun run => !fails run) r.offset }) := by
  have all {α : Type} (l : List α) : l.filter (fun _ => true) = l :=
    List.filter_eq_self.mpr fun _ _ => rfl
  induction runs generalizing pending b with
  | nil => simp [deleteRuns, all]
  | cons run runs ih =>
      obtain ⟨start, stop⟩ := run
      simp only [deleteRuns]
      cases failed : fails (start, stop) with
      | true => simp [failed, all]
      | false =>
          simp only [Bool.false_eq_true, if_false, ih, Offsets.outside_eq, Bucket.deleteRange,
            Bucket.delete, List.filter_filter, failed, Bool.not_false,
            List.takeWhile_cons_of_pos, Offsets.within, List.any_cons, Bool.not_or, Bool.and_comm]

theorem deleteRuns_ordered (runs : List (Nat × Nat)) (pending : List Nat) {b : Bucket}
    (ordered : b.Ordered) (fails : Nat × Nat → Bool) :
    (deleteRuns runs pending b fails).2.Ordered := by
  rw [deleteRuns_eq]
  exact ordered.delete _

theorem deleteRuns_next (runs : List (Nat × Nat)) (pending : List Nat) (b : Bucket)
    (fails : Nat × Nat → Bool) : (deleteRuns runs pending b fails).2.next = b.next := by
  rw [deleteRuns_eq]

theorem deleteRuns_sublist (runs : List (Nat × Nat)) (pending : List Nat) (b : Bucket)
    (fails : Nat × Nat → Bool) :
    (deleteRuns runs pending b fails).2.records.Sublist b.records := by
  rw [deleteRuns_eq]
  exact List.filter_sublist

theorem Wrote.shrink {b b' : Bucket} (ordered : b'.Ordered) (next : b'.next = b.next)
    (records : b'.records.Sublist b.records) : Wrote (τ := τ) b b' [] := by
  have none : b'.since b.next = [] := by rw [← next, Bucket.since_next ordered]
  exact
    { ordered
      next := next
      offsets := by rw [none]; rfl
      data := by rw [none]; rfl
      old := fun _ member _ => records.subset member }

theorem Performed.wrote {q q' : DurableQueue τ} {b b' : Bucket} {a : Activity} {tickets : List τ}
    (turn : Performed q b a q' b' tickets) (ordered : b.Ordered) :
    ∃ batch, q.unstored = batch ++ q'.unstored ∧ tickets = batch.map Prod.fst ∧
      Wrote b b' batch := by
  cases turn with
  | stored now time writeTimer some =>
      exact ⟨q.buffer, rfl, rfl, .put ordered time q.buffer⟩
  | received waits room =>
      exact ⟨[], by simp [unstored, waits], rfl, .nothing ordered⟩
  | deleted now fails deleteTimer =>
      exact ⟨[], rfl, rfl, .shrink (deleteRuns_ordered _ _ ordered _) (deleteRuns_next ..)
        (deleteRuns_sublist ..)⟩
  | swept now time sweepTimer found =>
      exact ⟨[], rfl, rfl, .shrink (ordered.delete _) rfl List.filter_sublist⟩
  | _ => exact ⟨[], rfl, rfl, .nothing ordered⟩

/-- On closing, the writer stores a last batch of what was accepted, or loses it all if the write
fails. What was not accepted is refused. -/
theorem finishWriting_wrote (q : DurableQueue τ) {b : Bucket} (ordered : b.Ordered)
    (time : Int64) (fails : Bool) :
    ∃ batch lost, q.unstored = batch ++ lost ++ q.inbox.drop q.inboxCapacity ∧
      (q.finishWriting b time fails).2.2.1 = (batch ++ lost).map Prod.fst ∧
      (lost ≠ [] → fails = true) ∧ Wrote b (q.finishWriting b time fails).2.1 batch := by
  have accepted : q.unstored =
      q.buffer ++ q.inbox.take q.inboxCapacity ++ q.inbox.drop q.inboxCapacity := by
    rw [List.append_assoc, List.take_append_drop]
    rfl
  generalize taken : q.buffer ++ q.inbox.take q.inboxCapacity = last at accepted
  by_cases nothing : last.isEmpty || fails
  · refine ⟨[], last, accepted, ?_, ?_, ?_⟩
    · simp [finishWriting, taken]
    · intro some
      cases fails with
      | true => rfl
      | false => simp_all
    · simpa [finishWriting, flush, store, taken, nothing] using Wrote.nothing ordered
  · refine ⟨last, [], by simpa using accepted, ?_, by simp, ?_⟩
    · simp [finishWriting, taken]
    · cases last with
      | nil => simp at nothing
      | cons entry rest =>
          have succeeds : fails = false := by simpa using nothing
          have put := Wrote.put ordered time (entry :: rest)
          simpa [finishWriting, flush, store, taken, succeeds] using put

theorem finishDeleting_wrote (q : DurableQueue τ) {b : Bucket} (ordered : b.Ordered)
    (fails : Nat × Nat → Bool) : Wrote (τ := τ) b (q.finishDeleting b fails).2 [] := by
  unfold finishDeleting
  simp only
  split
  · exact .shrink (deleteRuns_ordered _ _ ordered _) (deleteRuns_next ..) (deleteRuns_sublist ..)
  · exact .nothing ordered

theorem flush_frame (q : DurableQueue τ) (b : Bucket) (time : Int64) (fails : Bool) :
    ∃ buffer call, (q.flush b time fails).1 = { q with buffer, call } := by
  have kept : ∃ buffer, (q.store b time fails).1 = { q with buffer } := by
    unfold store
    split
    · exact ⟨q.buffer, rfl⟩
    · exact ⟨[], rfl⟩
  obtain ⟨buffer, kept⟩ := kept
  unfold flush
  split
  all_goals
    rename_i same
    rw [same] at kept
    subst kept
  · exact ⟨buffer, q.call, rfl⟩
  · exact ⟨buffer, true, rfl⟩

theorem finishWriting_keeps (q : DurableQueue τ) {b : Bucket} (time : Int64) (fails : Bool)
    {r : Record} (member : r ∈ b.records) : r ∈ (q.finishWriting b time fails).2.1.records := by
  have stored : ∀ q : DurableQueue τ, r ∈ (q.store b time fails).2.1.records := by
    intro q
    unfold store
    split
    · exact member
    · exact List.mem_append_left _ member
  have flushed : ∀ q : DurableQueue τ,
      (q.flush b time fails).2.1 = (q.store b time fails).2.1 := by
    intro q
    unfold flush
    split
    all_goals
      rename_i same
      rw [same]
  simpa only [finishWriting, flushed] using stored _

theorem finishWriting_frame (q : DurableQueue τ) (b : Bucket) (time : Int64) (fails : Bool) :
    ∃ call, (q.finishWriting b time fails).1 = { q with buffer := [], inbox := [], call } := by
  obtain ⟨buffer, call, same⟩ := flush_frame
    { q with buffer := q.buffer ++ q.inbox.take q.inboxCapacity, inbox := [] } b time fails
  exact ⟨call, by simp [finishWriting, same]⟩

theorem close_emptied {q : DurableQueue τ} (opened : q.closed = false) (b : Bucket) (time : Int64)
    (writeFails : Bool) (deleteFails : Nat × Nat → Bool) :
    (q.close b time writeFails deleteFails).1.closed = true ∧
      (q.close b time writeFails deleteFails).1.unstored = [] := by
  have written : (q.finishWriting b time writeFails).1.unstored = [] := by
    obtain ⟨call, same⟩ := finishWriting_frame q b time writeFails
    simp [same, unstored]
  have deleted : ∀ (q : DurableQueue τ) b,
      (q.finishDeleting b deleteFails).1.unstored = q.unstored := by
    intro q b
    unfold finishDeleting flushDeletes
    simp only
    split <;> rfl
  simp only [close, opened, Bool.false_eq_true, if_false, true_and]
  exact (deleted ..).trans written

inductive Move (τ : Type)
  | push (ticket : τ) (p : Publish)
  | turn (a : Activity)
  | pop
  | acknowledge (offset : Nat)
  | close (time : Int64) (writeFails : Bool) (deleteFails : Nat × Nat → Bool)

structure Course (τ : Type) where
  queue : DurableQueue τ
  bucket : Bucket
  pushed : List (τ × Publish) := []
  /-- The tickets of messages pushed to the closed queue. -/
  late : List τ := []
  /-- The tickets of the pushers that still waited when the queue was closed. -/
  refused : List τ := []
  stored : List Record := []
  done : List τ := []
  lastFailed : Bool := false

namespace Course

def opened (options : QueueOptions) (outCapacity now : Nat) (b : Bucket) : Course τ :=
  { queue := .new options outCapacity now, bucket := b }

def step (c : Course τ) : Move τ → Course τ
  | .push ticket p =>
    match c.queue.push ticket p with
    | some queue => { c with queue, pushed := c.pushed ++ [(ticket, p)] }
    | none => { c with late := c.late ++ [ticket], done := c.done ++ [ticket] }
  | .turn a =>
    let (queue, bucket, tickets) := c.queue.perform c.bucket a
    { c with queue, bucket, stored := c.stored ++ bucket.since c.bucket.next,
             done := c.done ++ tickets }
  | .pop => { c with queue := c.queue.pop.1 }
  | .acknowledge offset => { c with queue := c.queue.acknowledge offset }
  | .close time writeFails deleteFails =>
    if c.queue.closed then c
    else
      let written := (c.queue.finishWriting c.bucket time writeFails).2.1
      let (queue, bucket, tickets, refused) :=
        c.queue.close c.bucket time writeFails deleteFails
      { c with queue, bucket, refused, stored := c.stored ++ written.since c.bucket.next,
               done := c.done ++ tickets ++ refused, lastFailed := writeFails }

def run (c : Course τ) (moves : List (Move τ)) : Course τ := moves.foldl step c

/-- What became of the messages pushed to an open queue, apart from those that it still holds. -/
structure Account (τ : Type) where
  written : List (τ × Publish) := []
  lost : List (τ × Publish) := []
  refused : List (τ × Publish) := []

/-- The account of a queue that was opened over the bucket `start`. -/
structure Accounted (start : Bucket) (c : Course τ) (a : Account τ) : Prop where
  ordered : c.bucket.Ordered
  next : c.bucket.next = start.next + a.written.length
  order : c.pushed = a.written ++ a.lost ++ c.queue.unstored ++ a.refused
  offsets : c.stored.map Record.offset = List.range' start.next a.written.length
  data : c.stored.map Record.data = a.written.map fun entry => Codec.Binary.encode entry.2
  kept : ∀ r ∈ c.bucket.records, start.next ≤ r.offset → r ∈ c.stored
  done : c.done = (a.written ++ a.lost ++ a.refused).map Prod.fst ++ c.late
  refused : a.refused.map Prod.fst = c.refused
  /-- Messages are lost or refused on closing only. -/
  whileOpen : c.queue.closed = false → a.lost = [] ∧ a.refused = [] ∧ c.late = []
  emptied : c.queue.closed = true → c.queue.unstored = []
  lost : a.lost ≠ [] → c.lastFailed = true

theorem opened_accounted (options : QueueOptions) (outCapacity now : Nat) {b : Bucket}
    (ordered : b.Ordered) : Accounted (τ := τ) b (opened options outCapacity now b) {} where
  ordered := ordered
  next := rfl
  order := rfl
  offsets := rfl
  data := rfl
  kept := by
    intro r member above
    have := ordered.below r member
    omega
  done := rfl
  refused := rfl
  whileOpen := by simp [opened]
  emptied := by simp [opened, DurableQueue.new]
  lost := by simp

theorem Accounted.extended {start : Bucket} {c : Course τ} {a : Account τ}
    (accounted : Accounted start c a) {b' : Bucket} {batch : List (τ × Publish)}
    (wrote : Wrote c.bucket b' batch) :
    (c.stored ++ b'.since c.bucket.next).map Record.offset =
        List.range' start.next (a.written ++ batch).length ∧
      (c.stored ++ b'.since c.bucket.next).map Record.data =
        (a.written ++ batch).map (fun entry => Codec.Binary.encode entry.2) ∧
      ∀ r ∈ b'.records, start.next ≤ r.offset → r ∈ c.stored ++ b'.since c.bucket.next := by
  refine ⟨?_, ?_, ?_⟩
  · rw [List.map_append, accounted.offsets, wrote.offsets, accounted.next, List.length_append,
      List.range'_append_1]
  · rw [List.map_append, accounted.data, wrote.data, List.map_append]
  · intro r member above
    by_cases old : r.offset < c.bucket.next
    · exact List.mem_append_left _ (accounted.kept r (wrote.old r member old) above)
    · refine List.mem_append_right _ (List.mem_filter.mpr ⟨member, ?_⟩)
      simpa using old

theorem Accounted.frame {start : Bucket} {c : Course τ} {a : Account τ}
    (accounted : Accounted start c a) {queue : DurableQueue τ}
    (unstored : queue.unstored = c.queue.unstored) (closed : queue.closed = c.queue.closed) :
    Accounted start { c with queue } a :=
  { accounted with
    order := by rw [unstored, accounted.order]
    whileOpen := by simpa [closed] using accounted.whileOpen
    emptied := by simpa [closed, unstored] using accounted.emptied }

theorem Accounted.push {start : Bucket} {c : Course τ} {a : Account τ}
    (accounted : Accounted start c a) (ticket : τ) (p : Publish) :
    Accounted start (c.step (.push ticket p)) a := by
  cases closed : c.queue.closed with
  | true =>
      have step : c.step (.push ticket p) =
          { c with late := c.late ++ [ticket], done := c.done ++ [ticket] } := by
        simp [Course.step, DurableQueue.push, closed]
      rw [step]
      exact
        { accounted with
          done := by rw [accounted.done, List.append_assoc]
          whileOpen := by simp [closed] }
  | false =>
      have step : c.step (.push ticket p) =
          { c with queue := { c.queue with inbox := c.queue.inbox ++ [(ticket, p)] },
                   pushed := c.pushed ++ [(ticket, p)] } := by
        simp [Course.step, DurableQueue.push, closed]
      have order := accounted.order
      obtain ⟨lost, refused, late⟩ := accounted.whileOpen closed
      rw [step]
      exact
        { accounted with
          order := by simp [order, lost, refused, unstored]
          emptied := by simp [closed] }

theorem Accounted.turn {start : Bucket} {c : Course τ} {a : Account τ}
    (accounted : Accounted start c a) (activity : Activity) :
    ∃ a', Accounted start (c.step (.turn activity)) a' := by
  cases closed : c.queue.closed with
  | true =>
      have same : c.step (.turn activity) = c := by
        simp [Course.step, perform_of_closed closed, Bucket.since_next accounted.ordered]
      exact ⟨a, by rw [same]; exact accounted⟩
  | false =>
      have turn := perform_performed c.queue c.bucket activity
      obtain ⟨batch, left, tickets, wrote⟩ := turn.wrote accounted.ordered
      obtain ⟨lost, refused, late⟩ := accounted.whileOpen closed
      obtain ⟨offsets, data, kept⟩ := accounted.extended wrote
      have order := accounted.order
      have done := accounted.done
      rw [lost, refused, left] at order
      rw [lost, refused, late] at done
      exact ⟨{ a with written := a.written ++ batch },
        { ordered := wrote.ordered
          next := by
            rw [Course.step, wrote.next, accounted.next, List.length_append, Nat.add_assoc]
          order := by simp [Course.step, order, lost, refused]
          offsets := offsets
          data := data
          kept := kept
          done := by simp [Course.step, done, tickets, lost, refused, late]
          refused := accounted.refused
          whileOpen := fun _ => ⟨lost, refused, late⟩
          emptied := fun shut => by
            rw [Course.step, turn.closed, closed] at shut
            cases shut
          lost := accounted.lost }⟩

theorem Accounted.close {start : Bucket} {c : Course τ} {a : Account τ}
    (accounted : Accounted start c a) (time : Int64) (writeFails : Bool)
    (deleteFails : Nat × Nat → Bool) :
    ∃ a', Accounted start (c.step (.close time writeFails deleteFails)) a' := by
  cases closed : c.queue.closed with
  | true => exact ⟨a, by simpa [Course.step, closed] using accounted⟩
  | false =>
      obtain ⟨batch, lost, left, tickets, failed, wrote⟩ :=
        finishWriting_wrote c.queue accounted.ordered time writeFails
      have deleted := finishDeleting_wrote (c.queue.finishWriting c.bucket time writeFails).1
        wrote.ordered deleteFails
      obtain ⟨noneLost, noneRefused, noneLate⟩ := accounted.whileOpen closed
      obtain ⟨shut, emptied⟩ :=
        close_emptied closed c.bucket time writeFails deleteFails
      obtain ⟨offsets, data, kept⟩ := accounted.extended wrote
      have order := accounted.order
      have done := accounted.done
      rw [noneLost, noneRefused, left] at order
      rw [noneLost, noneRefused, noneLate] at done
      have step : c.step (.close time writeFails deleteFails) =
          { c with
            queue := (c.queue.close c.bucket time writeFails deleteFails).1
            bucket := ((c.queue.finishWriting c.bucket time writeFails).1.finishDeleting
              (c.queue.finishWriting c.bucket time writeFails).2.1 deleteFails).2
            refused := (c.queue.inbox.drop c.queue.inboxCapacity).map Prod.fst
            stored := c.stored ++
              (c.queue.finishWriting c.bucket time writeFails).2.1.since c.bucket.next
            done := c.done ++ (batch ++ lost).map Prod.fst ++
              (c.queue.inbox.drop c.queue.inboxCapacity).map Prod.fst
            lastFailed := writeFails } := by
        rw [← tickets]
        simp only [Course.step, DurableQueue.close, closed, Bool.false_eq_true, if_false]
        rfl
      rw [step]
      exact ⟨⟨a.written ++ batch, lost, c.queue.inbox.drop c.queue.inboxCapacity⟩,
        { ordered := deleted.ordered
          next := by
            rw [deleted.next, wrote.next, accounted.next, List.length_append, List.length_nil]
            omega
          order := by simp [order, emptied]
          offsets := offsets
          data := data
          kept := by
            intro r member above
            by_cases old : r.offset < (c.queue.finishWriting c.bucket time writeFails).2.1.next
            · exact kept r (deleted.old r member old) above
            · have below := deleted.ordered.below r member
              rw [deleted.next] at below
              exact absurd below old
          done := by simp [done, noneLate]
          refused := rfl
          whileOpen := fun opened => by simp [shut] at opened
          emptied := fun _ => emptied
          lost := failed }⟩

theorem step_accounted {start : Bucket} {c : Course τ} {a : Account τ}
    (accounted : Accounted start c a) (move : Move τ) :
    ∃ a', Accounted start (c.step move) a' := by
  cases move with
  | push ticket p => exact ⟨a, accounted.push ticket p⟩
  | turn activity => exact accounted.turn activity
  | pop =>
      refine ⟨a, accounted.frame ?_ ?_⟩
      all_goals
        unfold DurableQueue.pop
        split <;> rfl
  | acknowledge offset =>
      refine ⟨a, accounted.frame ?_ ?_⟩
      all_goals
        unfold DurableQueue.acknowledge
        split <;> rfl
  | close time writeFails deleteFails => exact accounted.close time writeFails deleteFails

theorem run_accounted {start : Bucket} {c : Course τ} {a : Account τ}
    (accounted : Accounted start c a) (moves : List (Move τ)) :
    ∃ a', Accounted start (c.run moves) a' := by
  induction moves generalizing c a with
  | nil => exact ⟨a, accounted⟩
  | cons move moves ih =>
      obtain ⟨a', next⟩ := step_accounted accounted move
      exact ih next

theorem step_pushed (c : Course τ) (move : Move τ) :
    (c.step move).pushed = c.pushed ∨
      ∃ ticket p, move = .push ticket p ∧ (c.step move).pushed = c.pushed ++ [(ticket, p)] := by
  cases move with
  | push ticket p =>
      cases closed : c.queue.closed with
      | true => exact Or.inl (by simp [step, DurableQueue.push, closed])
      | false => exact Or.inr ⟨ticket, p, rfl, by simp [step, DurableQueue.push, closed]⟩
  | turn _ => exact Or.inl rfl
  | pop => exact Or.inl rfl
  | acknowledge _ => exact Or.inl rfl
  | close _ _ _ =>
      refine Or.inl ?_
      simp only [step]
      split <;> rfl

theorem mem_pushed {c : Course τ} {moves : List (Move τ)} {entry : τ × Publish}
    (member : entry ∈ (c.run moves).pushed) :
    entry ∈ c.pushed ∨ Move.push entry.1 entry.2 ∈ moves := by
  induction moves generalizing c with
  | nil => exact Or.inl member
  | cons move moves ih =>
      rcases ih member with before | later
      · rcases step_pushed c move with same | ⟨ticket, p, rfl, added⟩
        · exact Or.inl (same ▸ before)
        · rw [added, List.mem_append, List.mem_singleton] at before
          rcases before with before | rfl
          · exact Or.inl before
          · exact Or.inr (List.mem_cons_self ..)
      · exact Or.inr (List.mem_cons_of_mem _ later)

/-- The tickets that are done are those of the messages that left the queue, each once. -/
theorem Accounted.balance {start : Bucket} {c : Course τ} {a : Account τ}
    (accounted : Accounted start c a) :
    (c.done ++ c.queue.unstored.map Prod.fst).Perm (c.pushed.map Prod.fst ++ c.late) := by
  rw [accounted.done, accounted.order]
  simp only [List.map_append, List.append_assoc]
  refine (List.Perm.append_left _ (List.Perm.append_left _ ?_))
  have swap : ((a.refused.map Prod.fst ++ c.late) ++ c.queue.unstored.map Prod.fst).Perm
      (c.queue.unstored.map Prod.fst ++ (a.refused.map Prod.fst ++ c.late)) :=
    List.perm_append_comm
  rwa [List.append_assoc] at swap

theorem Accounted.decoded {start : Bucket} {c : Course τ} {a : Account τ}
    (accounted : Accounted start c a) (sized : ∀ entry ∈ c.pushed, entry.2.Sized) :
    c.stored.map (fun r => Codec.Binary.decode r.data) =
      a.written.map fun entry => some (entry.2, []) := by
  have decoded : c.stored.map (fun r => Codec.Binary.decode r.data) =
      (c.stored.map Record.data).map Codec.Binary.decode := by
    rw [List.map_map]
    rfl
  rw [decoded, accounted.data, List.map_map]
  apply List.map_congr_left
  intro entry member
  have pushed : entry ∈ c.pushed := by
    rw [accounted.order]
    simp [member]
  exact Codec.Binary.decode_encode entry.2 (sized entry pushed)

def failingMoves : List (Move Nat) :=
  [.push 1 (.new 0 "a" [1] .atLeastOnce), .turn .receive, .turn (.store 10 0 true),
    .push 2 (.new 0 "b" [2] .atLeastOnce), .push 3 (.new 0 "c" [3] .atLeastOnce),
    .push 4 (.new 0 "d" [4] .atLeastOnce),
    .close 0 false (fun _ => false), .push 5 (.new 0 "e" [5] .atLeastOnce)]

example : ((opened ⟨1, 10, 1, 10, 0, 0⟩ 1 0 { name := "c" }).run failingMoves).done =
    [1, 2, 3, 4, 5] := by decide

end Course

end MqttBroker.DurableQueue
