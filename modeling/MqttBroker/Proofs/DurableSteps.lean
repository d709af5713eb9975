import MqttBroker.Queue.Durable

/-!
Durable queues step by step. The three activities of a queue take turns in any order; `perform`
is one turn, which does nothing if the activity has nothing to do, and `Performed` lists all that
can come of one.
-/

namespace MqttBroker.DurableQueue

variable {τ : Type}

/-- A turn of one of the activities. The writer receives a message, or stores its batch because
that is full or the time has come; the reader reads on; the deleter collects an acknowledged
offset, deletes its batch, or sweeps out what has expired. -/
inductive Activity
  | receive
  | store (now : Nat) (time : Int64) (fails : Bool)
  | read (now : Nat) (fails : Bool)
  | collect
  | delete (now : Nat) (fails : Nat × Nat → Bool)
  | sweep (now : Nat) (time : Int64) (fails : Bool)

/-- Gives an activity its turn. The tickets are those of the messages that are done with. -/
def perform (q : DurableQueue τ) (b : Bucket) (a : Activity) : DurableQueue τ × Bucket × List τ :=
  if q.closed then (q, b, [])
  else match a with
    | .receive => (q.receive.getD q, b, [])
    | .store now time fails => q.writeTick b now time fails
    | .read now fails => ((q.readNext b now fails).getD q, b, [])
    | .collect => if q.deleting then (q.collect.getD q, b, []) else (q, b, [])
    | .delete now fails =>
      if q.deleting then
        let (q, b) := q.deleteTick b now fails
        (q, b, [])
      else (q, b, [])
    | .sweep now time fails =>
      if q.deleting then
        let (q, b) := q.sweep b now time fails
        (q, b, [])
      else (q, b, [])

def unstored (q : DurableQueue τ) : List (τ × Publish) := q.buffer ++ q.inbox

def batch (q : DurableQueue τ) : List Bytes :=
  q.buffer.map fun entry => Codec.Binary.encode entry.2

inductive Performed (q : DurableQueue τ) (b : Bucket) :
    Activity → DurableQueue τ → Bucket → List τ → Prop
  | idle (a) : Performed q b a q b []
  | received {entry rest} : q.inbox = entry :: rest → q.bufferFull = false →
      Performed q b .receive { q with inbox := rest, buffer := q.buffer ++ [entry] } b []
  | waited (now time fails writeTimer) :
      Performed q b (.store now time fails) { q with writeTimer } b []
  | stored (now time writeTimer) : q.buffer ≠ [] →
      Performed q b (.store now time false) { q with buffer := [], call := true, writeTimer }
        (b.put time q.batch).1 (q.buffer.map Prod.fst)
  | unreadable (now due) : q.reading = .waiting → q.call = true →
      Performed q b (.read now true) { q with call := false, reading := .retrying due } b []
  | rested (now) : q.reading = .waiting → q.call = true →
      b.get q.cursor q.options.writeBatchSize = [] →
      Performed q b (.read now false) { q with call := false } b []
  | fetched (now) : q.reading = .waiting → q.call = true →
      b.get q.cursor q.options.writeBatchSize ≠ [] →
      Performed q b (.read now false)
        { q with call := false,
                 reading := .passing (b.get q.cursor q.options.writeBatchSize) } b []
  | finished (now fails) : q.reading = .passing [] →
      Performed q b (.read now fails) { q with reading := .waiting, call := true } b []
  | skipped (now fails) {r rest} : q.reading = .passing (r :: rest) →
      Codec.Binary.decode r.data = none →
      Performed q b (.read now fails)
        { q with cursor := r.offset + 1, reading := .passing rest,
                 acked := q.acked ++ [r.offset] } b []
  | passed (now fails) {r rest message left} : q.reading = .passing (r :: rest) →
      Codec.Binary.decode r.data = some (message, left) → q.outbox.length < q.outCapacity →
      Performed q b (.read now fails)
        { q with cursor := r.offset + 1, reading := .passing rest,
                 outbox := q.outbox ++ [⟨r.offset, message⟩] } b []
  | retried (now fails) {due} : q.reading = .retrying due →
      Performed q b (.read now fails) { q with reading := .waiting, call := true } b []
  | collected {o rest} : q.acked = o :: rest →
      Performed q b .collect { q with acked := rest, pending := Offsets.insert o q.pending } b []
  | deleted (now fails deleteTimer) :
      Performed q b (.delete now fails)
        { q with pending := (deleteRuns (Offsets.runs q.pending) q.pending b fails).1, deleteTimer }
        (deleteRuns (Offsets.runs q.pending) q.pending b fails).2 []
  | unswept (now time fails sweepTimer deleting) :
      Performed q b (.sweep now time fails) { q with sweepTimer, deleting } b []
  | swept (now time sweepTimer) {limit} :
      expiryLimit q.options.messageExpiry time = .ok (some limit) →
      Performed q b (.sweep now time false) { q with sweepTimer }
        (b.deleteBefore (Int64.ofInt limit)).1 []

theorem receive_performed (q : DurableQueue τ) (b : Bucket) :
    Performed q b .receive (q.receive.getD q) b [] := by
  unfold receive
  split
  · exact .idle _
  · rename_i entry rest waits
    split
    · exact .idle _
    · rename_i room
      exact .received waits (by simpa using room)

theorem writeTick_performed (q : DurableQueue τ) (b : Bucket) (now : Nat) (time : Int64)
    (fails : Bool) :
    Performed q b (.store now time fails) (q.writeTick b now time fails).1
      (q.writeTick b now time fails).2.1 (q.writeTick b now time fails).2.2 := by
  by_cases nothing : q.buffer.isEmpty || fails
  · simp only [writeTick, flush, store, nothing, if_true]
    exact .waited ..
  · have succeeds : fails = false := by
      cases fails with
      | true => simp at nothing
      | false => rfl
    subst succeeds
    cases buffered : q.buffer with
    | nil => simp [buffered] at nothing
    | cons entry rest =>
        have stored := Performed.stored (q := q) (b := b) now time
          (now + q.options.writeBatchInterval) (by simp [buffered])
        simpa [writeTick, flush, store, buffered, callReader, batch] using stored

theorem readNext_performed (q : DurableQueue τ) (b : Bucket) (now : Nat) (fails : Bool) :
    Performed q b (.read now fails) ((q.readNext b now fails).getD q) b [] := by
  unfold readNext
  split
  · rename_i waits
    split
    · rename_i called
      simp only [wake, Option.getD_some]
      cases fails with
      | true => exact .unreadable now _ waits called
      | false =>
          simp only [Bool.false_eq_true, if_false]
          split
          · rename_i none
            exact .rested now waits called none
          · rename_i none
            exact .fetched now waits called none
    · exact .idle _
  · rename_i records passing
    simp only [passOn, passing]
    split
    · rename_i same
      cases same
      exact .finished now fails passing
    · rename_i r rest same
      cases same
      split
      · rename_i undecodable
        exact .skipped now fails passing undecodable
      · rename_i message left decoded
        split
        · rename_i room
          exact .passed now fails passing decoded room
        · exact .idle _
    · exact .idle _
  · rename_i due retrying
    simp only [retry, retrying]
    split
    · exact .retried now fails retrying
    · exact .idle _

theorem collect_performed (q : DurableQueue τ) (b : Bucket) :
    Performed q b .collect (q.collect.getD q) b [] := by
  unfold collect
  split
  · exact .idle _
  · rename_i o rest acked
    exact .collected acked

theorem sweep_performed (q : DurableQueue τ) (b : Bucket) (now : Nat) (time : Int64)
    (fails : Bool) :
    Performed q b (.sweep now time fails) (q.sweep b now time fails).1
      (q.sweep b now time fails).2 [] := by
  unfold sweep
  simp only
  split
  · exact .unswept ..
  · exact .unswept ..
  · rename_i limit found
    cases fails with
    | true => exact .unswept ..
    | false => exact .swept now time _ found

theorem perform_performed (q : DurableQueue τ) (b : Bucket) (a : Activity) :
    Performed q b a (q.perform b a).1 (q.perform b a).2.1 (q.perform b a).2.2 := by
  unfold perform
  split
  · exact .idle _
  · cases a with
    | receive => exact receive_performed q b
    | store now time fails => exact writeTick_performed q b now time fails
    | read now fails => exact readNext_performed q b now fails
    | collect =>
        simp only
        split
        · exact collect_performed q b
        · exact .idle _
    | delete now fails =>
        simp only
        split
        · exact .deleted ..
        · exact .idle _
    | sweep now time fails =>
        simp only
        split
        · exact sweep_performed q b now time fails
        · exact .idle _

theorem Performed.closed {q q' : DurableQueue τ} {b b' : Bucket} {a : Activity}
    {tickets : List τ} (turn : Performed q b a q' b' tickets) : q'.closed = q.closed := by
  cases turn <;> rfl

theorem perform_of_closed {q : DurableQueue τ} (closed : q.closed = true) (b : Bucket)
    (a : Activity) : q.perform b a = (q, b, []) := by
  simp [perform, closed]

def performAll : DurableQueue τ → Bucket → List Activity → DurableQueue τ × Bucket × List τ
  | q, b, [] => (q, b, [])
  | q, b, a :: rest =>
    let (q, b, tickets) := q.perform b a
    let (q, b, more) := performAll q b rest
    (q, b, tickets ++ more)

def Turns (q : DurableQueue τ) (b : Bucket) (after : DurableQueue τ × Bucket × List τ) : Prop :=
  ∃ activities, performAll q b activities = after

theorem Turns.refl (q : DurableQueue τ) (b : Bucket) : Turns q b (q, b, []) := ⟨[], rfl⟩

theorem Turns.one (q : DurableQueue τ) (b : Bucket) (a : Activity) :
    Turns q b (q.perform b a) := ⟨[a], by simp [performAll]⟩

theorem Turns.trans {q q' q'' : DurableQueue τ} {b b' b'' : Bucket} {tickets more : List τ}
    (first : Turns q b (q', b', tickets)) (second : Turns q' b' (q'', b'', more)) :
    Turns q b (q'', b'', tickets ++ more) := by
  obtain ⟨before, first⟩ := first
  obtain ⟨later, second⟩ := second
  refine ⟨before ++ later, ?_⟩
  induction before generalizing q b tickets with
  | nil =>
      cases first
      exact second
  | cons a rest ih =>
      simp only [performAll, Prod.mk.injEq] at first
      obtain ⟨rfl, rfl, rfl⟩ := first
      simp only [List.cons_append, performAll]
      rw [ih rfl]
      simp

theorem writeTick_turns {q : DurableQueue τ} (opened : q.closed = false) (b : Bucket) (now : Nat)
    (time : Int64) (fails : Bool) :
    (q.writeTick b now time fails).1.closed = false ∧ Turns q b (q.writeTick b now time fails) := by
  have turn := Turns.one q b (.store now time fails)
  have write : q.perform b (.store now time fails) = q.writeTick b now time fails := by
    simp [perform, opened]
  rw [write] at turn
  exact ⟨(writeTick_performed q b now time fails).closed.trans opened, turn⟩

theorem deleteTick_turns {q : DurableQueue τ} (opened : q.closed = false)
    (deleting : q.deleting = true) (b : Bucket) (now : Nat) (fails : Nat × Nat → Bool) :
    Turns q b ((q.deleteTick b now fails).1, (q.deleteTick b now fails).2, []) := by
  have turn := Turns.one q b (.delete now fails)
  simpa [perform, opened, deleting] using turn

theorem sweep_turns {q : DurableQueue τ} (opened : q.closed = false)
    (deleting : q.deleting = true) (b : Bucket) (now : Nat) (time : Int64) (fails : Bool) :
    Turns q b ((q.sweep b now time fails).1, (q.sweep b now time fails).2, []) := by
  have turn := Turns.one q b (.sweep now time fails)
  simpa [perform, opened, deleting] using turn

theorem writeNext_turns {q : DurableQueue τ} (opened : q.closed = false) {b : Bucket} {now : Nat}
    {time : Int64} {fails : Bool} {after : DurableQueue τ × Bucket × List τ}
    (next : q.writeNext b now time fails = some after) :
    after.1.closed = false ∧ Turns q b after := by
  simp only [writeNext, Option.map_eq_some_iff] at next
  obtain ⟨received, receives, rfl⟩ := next
  have step : q.perform b .receive = (received, b, []) := by simp [perform, opened, receives]
  have turn := perform_performed q b .receive
  rw [step] at turn
  have still : received.closed = false := turn.closed.trans opened
  have first : Turns q b (received, b, []) := step ▸ Turns.one q b .receive
  split
  · have write := writeTick_turns still b now time fails
    exact ⟨write.1, first.trans write.2⟩
  · exact ⟨still, first⟩

theorem runWriter_turns (fuel : Nat) {q : DurableQueue τ} (opened : q.closed = false) (b : Bucket)
    (now : Nat) (time : Int64) (fails : Bool) :
    (runWriter fuel q b now time fails).1.closed = false ∧
      Turns q b (runWriter fuel q b now time fails) := by
  induction fuel generalizing q b with
  | zero => exact ⟨opened, .refl q b⟩
  | succ fuel ih =>
      simp only [runWriter]
      split
      · exact ⟨opened, .refl q b⟩
      · rename_i next
        obtain ⟨still, first⟩ := writeNext_turns opened next
        exact ⟨(ih still _).1, first.trans (ih still _).2⟩

theorem runReader_turns (fuel : Nat) {q : DurableQueue τ} (opened : q.closed = false) (b : Bucket)
    (now : Nat) :
    (runReader fuel q b now).closed = false ∧ Turns q b (runReader fuel q b now, b, []) := by
  induction fuel generalizing q with
  | zero => exact ⟨opened, .refl q b⟩
  | succ fuel ih =>
      simp only [runReader]
      split
      · exact ⟨opened, .refl q b⟩
      · rename_i read next
        have step : q.perform b (.read now false) = (read, b, []) := by
          simp [perform, opened, next]
        have turn := perform_performed q b (.read now false)
        rw [step] at turn
        have still : read.closed = false := turn.closed.trans opened
        have first : Turns q b (read, b, []) := step ▸ Turns.one q b _
        exact ⟨(ih still).1, first.trans (ih still).2⟩

theorem deleteNext_turns {q : DurableQueue τ} (opened : q.closed = false)
    (deleting : q.deleting = true) {b : Bucket} {now : Nat} {fails : Nat × Nat → Bool}
    {after : DurableQueue τ × Bucket} (next : q.deleteNext b now fails = some after) :
    after.1.closed = false ∧ after.1.deleting = true ∧ Turns q b (after.1, after.2, []) := by
  simp only [deleteNext, Option.map_eq_some_iff] at next
  obtain ⟨collected, collects, rfl⟩ := next
  have step : q.perform b .collect = (collected, b, []) := by
    simp [perform, opened, deleting, collects]
  have still : collected.closed = false ∧ collected.deleting = true := by
    unfold collect at collects
    split at collects
    · cases collects
    · cases collects
      exact ⟨opened, deleting⟩
  have first : Turns q b (collected, b, []) := step ▸ Turns.one q b .collect
  split
  · exact ⟨still.1, still.2, first.trans (deleteTick_turns still.1 still.2 b now fails)⟩
  · exact ⟨still.1, still.2, first⟩

theorem runDeleter_turns (fuel : Nat) {q : DurableQueue τ} (opened : q.closed = false)
    (deleting : q.deleting = true) (b : Bucket) (now : Nat) (fails : Nat × Nat → Bool) :
    Turns q b ((runDeleter fuel q b now fails).1, (runDeleter fuel q b now fails).2, []) := by
  induction fuel generalizing q b with
  | zero => exact .refl q b
  | succ fuel ih =>
      simp only [runDeleter]
      split
      · exact .refl q b
      · rename_i next
        obtain ⟨still, goes, first⟩ := deleteNext_turns opened deleting next
        exact first.trans (ih still goes _)

/-- What a queue does by itself at an instant is a sequence of turns. -/
theorem settle_turns (q : DurableQueue τ) (b : Bucket) (now : Nat) (time : Int64) (fails : Bool) :
    Turns q b (q.settle b now time fails) := by
  unfold settle
  split
  · exact .refl q b
  · rename_i opened
    have opened : q.closed = false := by simpa using opened
    obtain ⟨still, written⟩ := runWriter_turns q.inbox.length opened b now time fails
    generalize runWriter q.inbox.length q b now time fails = after at still written
    obtain ⟨q₁, b₁, tickets⟩ := after
    obtain ⟨open₁, read⟩ := runReader_turns (q₁.readerSteps b₁) still b₁ now
    have turns := written.trans read
    simp only [List.append_nil] at turns ⊢
    split
    · rename_i deleting
      have deleted := runDeleter_turns
        (runReader (q₁.readerSteps b₁) q₁ b₁ now).acked.length open₁ deleting b₁ now fun _ => fails
      simpa using turns.trans deleted
    · exact turns

theorem tick_turns (q : DurableQueue τ) (b : Bucket) (now : Nat) (time : Int64) (fails : Bool) :
    Turns q b (q.tick b now time fails) := by
  unfold tick
  split
  · exact .refl q b
  · rename_i opened
    have opened : q.closed = false := by simpa using opened
    have wrote : ∃ q₁ b₁ tickets, (if q.writeTimer ≤ now then q.writeTick b now time fails
        else (q, b, [])) = (q₁, b₁, tickets) ∧ q₁.closed = false ∧
        Turns q b (q₁, b₁, tickets) := by
      split
      · exact ⟨_, _, _, rfl, writeTick_turns opened b now time fails⟩
      · exact ⟨q, b, [], rfl, opened, .refl q b⟩
    obtain ⟨q₁, b₁, tickets, same, open₁, first⟩ := wrote
    rw [same]
    have deleted : ∃ q₂ b₂, (if q₁.deleting && q₁.deleteTimer ≤ now then
        q₁.deleteTick b₁ now fun _ => fails else (q₁, b₁)) = (q₂, b₂) ∧ q₂.closed = false ∧
        Turns q₁ b₁ (q₂, b₂, []) := by
      split
      · rename_i due
        have deleting : q₁.deleting = true := by simp_all
        exact ⟨_, _, rfl, open₁, deleteTick_turns open₁ deleting b₁ now _⟩
      · exact ⟨q₁, b₁, rfl, open₁, .refl q₁ b₁⟩
    obtain ⟨q₂, b₂, same, open₂, second⟩ := deleted
    simp only [same]
    have turns := first.trans second
    split
    · rename_i due
      have deleting : q₂.deleting = true := by simp_all
      simpa using turns.trans (sweep_turns open₂ deleting b₂ now time fails)
    · simpa using turns

end MqttBroker.DurableQueue
