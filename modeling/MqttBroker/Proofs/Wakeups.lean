import MqttBroker.Proofs.DurableReader

/-!
Calls to the reader of a durable queue are not lost. Writer and reader are taken apart here further
than into turns: the writer stores a batch and then calls the reader, the reader takes a call and
then reads, and everybody else may act in between. Still a reader at rest has left nothing unread,
and none of the records in the bucket is stepped over.
-/

namespace MqttBroker.DurableQueue

variable {τ : Type}

structure Workings (τ : Type) where
  queue : DurableQueue τ
  bucket : Bucket
  /-- The writer has stored a batch, and has not yet called the reader. -/
  calling : Bool := false
  /-- The reader has taken a call, and has not yet read. -/
  called : Bool := false
  read : List Nat := []

namespace Workings

inductive Stroke (τ : Type)
  | push (ticket : τ) (p : Publish)
  | pop
  | acknowledge (offset : Nat)
  | receive
  | drain
  | put (now : Nat) (time : Int64) (fails : Bool)
  | call
  | answer
  | get (now : Nat) (fails : Bool)
  | pass
  | retry (now : Nat)
  | collect
  | delete (now : Nat) (fails : Nat × Nat → Bool)
  | sweep (now : Nat) (time : Int64) (fails : Bool)

def start (b : Bucket) (options : QueueOptions) (outCapacity now : Nat) : Workings τ :=
  { queue := .new options outCapacity now, bucket := b }

def doneReading (q q' : DurableQueue τ) : List Nat :=
  (q'.outbox.drop q.outbox.length).map StoredMessage.offset ++ q'.acked.drop q.acked.length

def step (m : Workings τ) : Stroke τ → Workings τ
  | .push ticket p => { m with queue := (m.queue.push ticket p).getD m.queue }
  | .pop => { m with queue := m.queue.pop.1 }
  | .acknowledge offset => { m with queue := m.queue.acknowledge offset }
  | .receive => { m with queue := m.queue.receive.getD m.queue }
  | .drain =>
    let buffer := m.queue.buffer ++ m.queue.inbox.take m.queue.inboxCapacity
    { m with queue := { m.queue with buffer, inbox := [] } }
  | .put now time fails =>
    if m.calling then m
    else
      let (queue, bucket, done) := m.queue.store m.bucket time fails
      { m with bucket, calling := !done.isEmpty
               queue := { queue with writeTimer := now + queue.options.writeBatchInterval } }
  | .call => if m.calling then { m with queue := m.queue.callReader, calling := false } else m
  | .answer =>
    match m.queue.reading, m.called, m.queue.call with
    | .waiting, false, true => { m with queue := { m.queue with call := false }, called := true }
    | _, _, _ => m
  | .get now fails =>
    -- a call that comes after the one taken is not lost
    if m.called then
      { m with queue := { m.queue.wake m.bucket now fails with call := m.queue.call }
               called := false }
    else m
  | .pass =>
    match m.queue.passOn with
    | none => m
    | some queue => { m with queue, read := m.read ++ doneReading m.queue queue }
  | .retry now => { m with queue := (m.queue.retry now).getD m.queue }
  | .collect => { m with queue := m.queue.collect.getD m.queue }
  | .delete now fails =>
    let (queue, bucket) := m.queue.deleteTick m.bucket now fails
    { m with queue, bucket }
  | .sweep now time fails =>
    let (queue, bucket) := m.queue.sweep m.bucket now time fails
    { m with queue, bucket }

def run (m : Workings τ) (strokes : List (Stroke τ)) : Workings τ := strokes.foldl step m

def AtRest (m : Workings τ) : Prop :=
  m.queue.reading = .waiting ∧ m.called = false ∧ m.queue.call = false ∧ m.calling = false

structure Watchful (m : Workings τ) : Prop where
  ordered : m.bucket.Ordered
  some : 0 < m.queue.options.writeBatchSize
  cursor : m.queue.cursor ≤ m.bucket.next
  held : ∀ records, m.queue.reading = .passing records →
    Held m.bucket m.queue.cursor records
  called : m.called = true → m.queue.reading = .waiting
  increasing : m.read.Pairwise (· < ·)
  behind : ∀ o ∈ m.read, o < m.queue.cursor
  complete : ∀ r ∈ m.bucket.records, r.offset < m.queue.cursor → r.offset ∈ m.read
  rested : m.AtRest → ∀ r ∈ m.bucket.records, r.offset < m.queue.cursor

theorem start_watchful {b : Bucket} (ordered : b.Ordered) {options : QueueOptions}
    (some : 0 < options.writeBatchSize) (outCapacity now : Nat) :
    (start b options outCapacity now : Workings τ).Watchful where
  ordered := ordered
  some := some
  cursor := Nat.zero_le _
  held := by simp [start, DurableQueue.new]
  called := by simp [start]
  increasing := .nil
  behind := by simp [start]
  complete := by simp [start, DurableQueue.new]
  rested := by simp [start, DurableQueue.new, AtRest]

theorem Watchful.aside {m m' : Workings τ} (watchful : m.Watchful)
    (follows : m'.bucket.Follows m.bucket) (options : m'.queue.options = m.queue.options)
    (cursor : m'.queue.cursor = m.queue.cursor) (reading : m'.queue.reading = m.queue.reading)
    (called : m'.called = m.called) (read : m'.read = m.read)
    (rested : m'.AtRest → ∀ r ∈ m'.bucket.records, r.offset < m.queue.cursor) :
    m'.Watchful where
  ordered := follows.ordered
  some := options ▸ watchful.some
  cursor := by
    rw [cursor]
    exact Nat.le_trans watchful.cursor follows.next
  held := by
    intro records passing
    rw [cursor]
    exact (watchful.held records (reading ▸ passing)).follow follows
  called := by
    rw [called, reading]
    exact watchful.called
  increasing := read ▸ watchful.increasing
  behind := by
    rw [read, cursor]
    exact watchful.behind
  complete := by
    intro r member before
    rw [cursor] at before
    rw [read]
    have below := watchful.cursor
    exact watchful.complete r (follows.old r member (by omega)) before
  rested := by
    rw [cursor]
    exact rested

theorem Watchful.same {m : Workings τ} (watchful : m.Watchful) {queue : DurableQueue τ}
    (options : queue.options = m.queue.options) (cursor : queue.cursor = m.queue.cursor)
    (reading : queue.reading = m.queue.reading) (call : queue.call = m.queue.call) :
    ({ m with queue } : Workings τ).Watchful := by
  refine watchful.aside (.refl watchful.ordered) options cursor reading rfl rfl fun rest => ?_
  obtain ⟨waits, idle, quiet, settled⟩ := rest
  exact watchful.rested ⟨reading ▸ waits, idle, call ▸ quiet, settled⟩

theorem Watchful.shrink {m : Workings τ} (watchful : m.Watchful) {queue : DurableQueue τ}
    {bucket : Bucket} (follows : bucket.Follows m.bucket)
    (fewer : ∀ r ∈ bucket.records, r ∈ m.bucket.records)
    (options : queue.options = m.queue.options) (cursor : queue.cursor = m.queue.cursor)
    (reading : queue.reading = m.queue.reading) (call : queue.call = m.queue.call) :
    ({ m with queue, bucket } : Workings τ).Watchful := by
  refine watchful.aside follows options cursor reading rfl rfl fun rest r member => ?_
  obtain ⟨waits, idle, quiet, settled⟩ := rest
  exact watchful.rested ⟨reading ▸ waits, idle, call ▸ quiet, settled⟩ r (fewer r member)

/-! The writer -/

theorem Watchful.put {m : Workings τ} (watchful : m.Watchful) (now : Nat) (time : Int64)
    (fails : Bool) : (m.step (.put now time fails)).Watchful := by
  simp only [step]
  split
  · exact watchful
  · rename_i idle
    simp only [store]
    split
    · -- nothing was stored
      simp only [List.isEmpty_nil, Bool.not_true]
      refine watchful.aside (.refl watchful.ordered) rfl rfl rfl rfl rfl fun rest => ?_
      obtain ⟨waits, reads, quiet, _⟩ := rest
      exact watchful.rested ⟨waits, reads, quiet, by simpa using idle⟩
    · rename_i stored
      have batch : m.queue.buffer ≠ [] := by
        rintro none
        simp [none] at stored
      -- whatever is new in the bucket, the reader will be called
      refine watchful.aside (.put watchful.ordered ..) rfl rfl rfl rfl rfl fun rest => ?_
      simp [AtRest, batch] at rest

theorem Watchful.call {m : Workings τ} (watchful : m.Watchful) : (m.step .call).Watchful := by
  simp only [step]
  split
  · refine watchful.aside (.refl watchful.ordered) rfl rfl rfl rfl rfl fun rest => ?_
    simp [AtRest, callReader] at rest
  · exact watchful

/-! The reader -/

theorem Watchful.answer {m : Workings τ} (watchful : m.Watchful) :
    (m.step .answer).Watchful := by
  simp only [step]
  split
  · rename_i waits _ _
    exact
      { watchful with
        called := fun _ => waits
        rested := by simp [AtRest] }
  · exact watchful

theorem Watchful.get {m : Workings τ} (watchful : m.Watchful) (now : Nat) (fails : Bool) :
    (m.step (.get now fails)).Watchful := by
  simp only [step, wake]
  split
  · rename_i taken
    have waits := watchful.called taken
    split
    · -- a reader that could not read does not rest
      exact
        { watchful with
          held := by simp
          called := by simp
          rested := by simp [AtRest] }
    · split
      · rename_i none
        exact
          { watchful with
            called := by simp
            rested := fun _ => Bucket.get_nil watchful.some none }
      · refine
          { watchful with
            held := ?_
            called := by simp
            rested := by simp [AtRest] }
        intro records passing
        rw [Reading.passing.injEq] at passing
        exact passing ▸ get_held watchful.ordered ..
  · exact watchful

theorem Watchful.retry {m : Workings τ} (watchful : m.Watchful) (now : Nat) :
    (m.step (.retry now)).Watchful := by
  simp only [step, DurableQueue.retry]
  split
  · rename_i due retrying
    split
    · exact
        { watchful with
          held := by simp [callReader]
          called := fun _ => rfl
          rested := by simp [AtRest, callReader] }
    · exact watchful
  · exact watchful

theorem passOn_cases {q q' : DurableQueue τ} (passes : q.passOn = some q') :
    (q.reading = .passing [] ∧ q' = { q with reading := .waiting, call := true }) ∨
      ∃ r rest, q.reading = .passing (r :: rest) ∧ q'.reading = .passing rest ∧
        q'.cursor = r.offset + 1 ∧ q'.options = q.options ∧ doneReading q q' = [r.offset] := by
  unfold passOn at passes
  split at passes
  · rename_i passing
    cases passes
    exact Or.inl ⟨passing, rfl⟩
  · rename_i r rest passing
    split at passes
    · cases passes
      exact Or.inr ⟨r, rest, passing, rfl, rfl, rfl, by simp [doneReading]⟩
    · split at passes
      · cases passes
        exact Or.inr ⟨r, rest, passing, rfl, rfl, rfl, by simp [doneReading]⟩
      · cases passes
  · cases passes

theorem Watchful.pass {m : Workings τ} (watchful : m.Watchful) : (m.step .pass).Watchful := by
  simp only [step]
  split
  · exact watchful
  · rename_i queue passes
    have busy : ∀ records, m.queue.reading = .passing records → m.called = false := by
      intro records passing
      cases taken : m.called with
      | false => rfl
      | true =>
          rw [watchful.called taken] at passing
          cases passing
    rcases passOn_cases passes with
      ⟨passing, rfl⟩ | ⟨r, rest, passing, reading, cursor, options, own⟩
    · simp only [doneReading, List.drop_length, List.map_nil, List.append_nil]
      exact
        { watchful with
          held := by simp
          called := fun _ => rfl
          rested := by simp [AtRest] }
    · rw [own]
      have held := watchful.held _ passing
      have unread := held.unread r (List.mem_cons_self ..)
      constructor
      case ordered => exact watchful.ordered
      case some => exact options ▸ watchful.some
      case cursor =>
        rw [cursor]
        exact (held.known r (List.mem_cons_self ..)).1
      case held =>
        intro records same
        rw [reading, Reading.passing.injEq] at same
        rw [cursor]
        exact same ▸ held.pass
      case called =>
        intro taken
        rw [busy _ passing] at taken
        cases taken
      case increasing =>
        refine List.pairwise_append.mpr ⟨watchful.increasing, by simp, fun o member n last => ?_⟩
        rw [List.mem_singleton.mp last]
        exact Nat.lt_of_lt_of_le (watchful.behind o member) unread
      case behind =>
        intro o member
        rw [cursor]
        rcases List.mem_append.mp member with before | last
        · have := watchful.behind o before
          omega
        · rw [List.mem_singleton.mp last]
          omega
      case complete =>
        intro s member before
        rw [cursor] at before
        by_cases old : s.offset < m.queue.cursor
        · exact List.mem_append_left _ (watchful.complete s member old)
        · obtain rfl := held.first member (by omega) before
          exact List.mem_append_right _ (by simp)
      case rested => simp [AtRest, reading]

/-! The others -/

theorem Watchful.delete {m : Workings τ} (watchful : m.Watchful) (now : Nat)
    (fails : Nat × Nat → Bool) : (m.step (.delete now fails)).Watchful := by
  have fewer := deleteRuns_sublist (Offsets.runs m.queue.pending) m.queue.pending m.bucket fails
  have follows := (Performed.deleted (q := m.queue) (b := m.bucket) now fails 0).follows
    watchful.ordered
  exact watchful.shrink follows (fun r member => fewer.subset member) rfl rfl rfl rfl

theorem Watchful.sweep {m : Workings τ} (watchful : m.Watchful) (now : Nat) (time : Int64)
    (fails : Bool) : (m.step (.sweep now time fails)).Watchful := by
  simp only [step, DurableQueue.sweep]
  split
  · exact watchful.same rfl rfl rfl rfl
  · exact watchful.same rfl rfl rfl rfl
  · split
    · exact watchful.same rfl rfl rfl rfl
    · exact watchful.shrink (.delete watchful.ordered _)
        (fun r member => (Bucket.mem_deleteBefore.mp member).1) rfl rfl rfl rfl

theorem step_watchful {m : Workings τ} (watchful : m.Watchful) (stroke : Stroke τ) :
    (m.step stroke).Watchful := by
  cases stroke with
  | push ticket p =>
      simp only [step, DurableQueue.push]
      split <;> exact watchful.same rfl rfl rfl rfl
  | pop =>
      simp only [step, DurableQueue.pop]
      split <;> exact watchful.same rfl rfl rfl rfl
  | acknowledge offset =>
      simp only [step, DurableQueue.acknowledge]
      split <;> exact watchful.same rfl rfl rfl rfl
  | receive =>
      simp only [step, DurableQueue.receive]
      split
      · exact watchful
      · split <;> exact watchful.same rfl rfl rfl rfl
  | drain => exact watchful.same rfl rfl rfl rfl
  | put now time fails => exact watchful.put now time fails
  | call => exact watchful.call
  | answer => exact watchful.answer
  | get now fails => exact watchful.get now fails
  | pass => exact watchful.pass
  | retry now => exact watchful.retry now
  | collect =>
      simp only [step, DurableQueue.collect]
      split <;> exact watchful.same rfl rfl rfl rfl
  | delete now fails => exact watchful.delete now fails
  | sweep now time fails => exact watchful.sweep now time fails

theorem run_watchful {m : Workings τ} (watchful : m.Watchful) (strokes : List (Stroke τ)) :
    (m.run strokes).Watchful := by
  induction strokes generalizing m with
  | nil => exact watchful
  | cons stroke rest ih => exact ih (step_watchful watchful stroke)

/-- A turn of an activity is made of strokes, with nobody else in between. -/
theorem perform_strokes (m : Workings τ) (settled : m.calling = false) (idle : m.called = false)
    (a : Activity) :
    ∃ strokes read, m.run strokes =
      { m with queue := (m.queue.perform m.bucket a).1, bucket := (m.queue.perform m.bucket a).2.1
               read } := by
  unfold perform
  split
  · exact ⟨[], m.read, rfl⟩
  · cases a with
    | receive => exact ⟨[.receive], m.read, rfl⟩
    | store now time fails =>
        refine ⟨[.put now time fails, .call], m.read, ?_⟩
        by_cases nothing : m.queue.buffer.isEmpty || fails
        · simp [run, step, settled, writeTick, flush, store, nothing]
        · have batch : m.queue.buffer ≠ [] := by
            rintro none
            simp [none] at nothing
          obtain ⟨entry, rest, buffer⟩ := List.exists_cons_of_ne_nil batch
          have succeeds : fails = false := by simpa [buffer] using nothing
          simp [run, step, settled, writeTick, flush, store, succeeds, buffer, callReader]
    | read now fails =>
        simp only [readNext]
        split
        · rename_i waits
          split
          · rename_i call
            refine ⟨[.answer, .get now fails], m.read, ?_⟩
            simp only [run, List.foldl_cons, List.foldl_nil, step, waits, idle, call, if_true,
              Option.getD_some, wake]
            cases fails with
            | true => rfl
            | false =>
                simp only [Bool.false_eq_true, if_false]
                split <;> rfl
          · exact ⟨[], m.read, rfl⟩
        · cases passes : m.queue.passOn with
          | none => exact ⟨[], m.read, rfl⟩
          | some queue =>
              exact ⟨[.pass], m.read ++ doneReading m.queue queue, by simp [run, step, passes]⟩
        · exact ⟨[.retry now], m.read, rfl⟩
    | collect =>
        simp only
        split
        · exact ⟨[.collect], m.read, rfl⟩
        · exact ⟨[], m.read, rfl⟩
    | delete now fails =>
        simp only
        split
        · exact ⟨[.delete now fails], m.read, rfl⟩
        · exact ⟨[], m.read, rfl⟩
    | sweep now time fails =>
        simp only
        split
        · exact ⟨[.sweep now time fails], m.read, rfl⟩
        · exact ⟨[], m.read, rfl⟩

/-- Whatever writer, reader, deleter and users do, and whichever of their reads and writes fail: a
reader at rest has left no record of the bucket unread, and what it passes on or skips are all the
records that lie behind its cursor, by increasing offset. -/
theorem rest_leaves_nothing {b : Bucket} (ordered : b.Ordered) {options : QueueOptions}
    (some : 0 < options.writeBatchSize) (outCapacity now : Nat) (strokes : List (Stroke τ)) :
    let m := (start b options outCapacity now).run strokes
    (m.AtRest → ∀ r ∈ m.bucket.records, r.offset < m.queue.cursor) ∧
      m.read.Pairwise (· < ·) ∧ (∀ o ∈ m.read, o < m.queue.cursor) ∧
      ∀ r ∈ m.bucket.records, r.offset < m.queue.cursor → r.offset ∈ m.read := by
  have watchful := run_watchful (start_watchful (τ := τ) ordered some outCapacity now) strokes
  exact ⟨watchful.rested, watchful.increasing, watchful.behind, watchful.complete⟩

def writtenBefore : Bucket := { name := "c", records := [⟨1, 0, []⟩], next := 2 }

def lateCall : List (Stroke Nat) :=
  [.push 1 (.new 0 "a" [1] .atLeastOnce), .receive, .answer, .put 10 0 false, .get 10 true,
    .retry 20, .answer, .get 20 false, .call, .pass, .pass, .pass, .answer, .get 20 false]

theorem lateCall_leaves_nothing :
    writtenBefore.Ordered ∧ 0 < 4 ∧
      let m := (start writtenBefore ⟨4, 10, 1, 10, 0, 0⟩ 1 0).run lateCall
      m.AtRest ∧ m.read = [1, 2] ∧ (∀ r ∈ m.bucket.records, r.offset < m.queue.cursor) ∧
        ∀ r ∈ m.bucket.records, r.offset < m.queue.cursor → r.offset ∈ m.read := by
  have ordered : writtenBefore.Ordered := ⟨by simp [writtenBefore], by simp [writtenBefore]⟩
  have some : 0 < (⟨4, 10, 1, 10, 0, 0⟩ : QueueOptions).writeBatchSize := by decide
  have leaves := rest_leaves_nothing ordered some 1 0 lateCall
  have rest : ((start writtenBefore ⟨4, 10, 1, 10, 0, 0⟩ 1 0).run lateCall).AtRest :=
    ⟨rfl, rfl, rfl, rfl⟩
  exact ⟨ordered, by decide, rest, by decide, leaves.1 rest, leaves.2.2.2⟩

end Workings

end MqttBroker.DurableQueue
