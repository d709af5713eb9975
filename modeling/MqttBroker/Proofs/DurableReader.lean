import MqttBroker.Proofs.DurableWriter

/-!
What the reader of a durable queue passes on, and what its deleter takes out of the bucket. The
reader goes through the bucket by increasing offset and leaves no message out that is not deleted
before it comes to it. The deleter takes out what has expired and what was acknowledged, and
nothing else.
-/

namespace MqttBroker

def Record.message? (r : Record) : Option StoredMessage :=
  (Codec.Binary.decode r.data).map fun decoded => ⟨r.offset, decoded.1⟩

theorem Record.message?_offset {r : Record} {m : StoredMessage} (holds : r.message? = some m) :
    m.offset = r.offset := by
  simp only [message?, Option.map_eq_some_iff] at holds
  obtain ⟨_, _, rfl⟩ := holds
  rfl

namespace DurableQueue

variable {τ : Type}

theorem Wrote.follows {b b' : Bucket} {batch : List (τ × Publish)} (wrote : Wrote b b' batch) :
    b'.Follows b :=
  ⟨wrote.ordered, by rw [wrote.next]; omega, wrote.old⟩

theorem Performed.follows {q q' : DurableQueue τ} {b b' : Bucket} {a : Activity}
    {tickets : List τ} (turn : Performed q b a q' b' tickets) (ordered : b.Ordered) :
    b'.Follows b := by
  obtain ⟨batch, _, _, wrote⟩ := turn.wrote ordered
  exact wrote.follows

/-! The reader -/

structure Held (b : Bucket) (cursor : Nat) (records : List Record) : Prop where
  increasing : records.Pairwise fun r s => r.offset < s.offset
  unread : ∀ r ∈ records, cursor ≤ r.offset
  known : ∀ r ∈ records, b.Knows r.offset (· = r)
  complete : ∀ s ∈ records, ∀ r ∈ b.records, cursor ≤ r.offset → r.offset ≤ s.offset →
    r ∈ records

theorem Held.follow {b b' : Bucket} {cursor : Nat} {records : List Record}
    (held : Held b cursor records) (follows : b'.Follows b) : Held b' cursor records where
  increasing := held.increasing
  unread := held.unread
  known := fun r member => (held.known r member).mono follows fun _ _ same => same
  complete := by
    intro s member r inBucket unread before
    have below := (held.known s member).1
    exact held.complete s member r (follows.old r inBucket (by omega)) unread before

theorem Held.pass {b : Bucket} {cursor : Nat} {r : Record} {rest : List Record}
    (held : Held b cursor (r :: rest)) : Held b (r.offset + 1) rest where
  increasing := (List.pairwise_cons.mp held.increasing).2
  unread := (List.pairwise_cons.mp held.increasing).1
  known := fun s member => held.known s (List.mem_cons_of_mem _ member)
  complete := by
    intro s member t inBucket after before
    have unread := held.unread r (List.mem_cons_self ..)
    have among := held.complete s (List.mem_cons_of_mem _ member) t inBucket (by omega) before
    rcases List.mem_cons.mp among with rfl | later
    · omega
    · exact later

theorem Held.first {b : Bucket} {cursor : Nat} {r s : Record} {rest : List Record}
    (held : Held b cursor (r :: rest)) (inBucket : s ∈ b.records) (unread : cursor ≤ s.offset)
    (before : s.offset < r.offset + 1) : s = r := by
  have among := held.complete r (List.mem_cons_self ..) s inBucket unread (by omega)
  rcases List.mem_cons.mp among with same | later
  · exact same
  · have := (List.pairwise_cons.mp held.increasing).1 s later
    omega

/-- What the reader has done with the records of its bucket, of which `present` lists all that were
in it at any time since the queue was opened. -/
structure Reads (q : DurableQueue τ) (b : Bucket) (present : List Record)
    (emitted : List StoredMessage) : Prop where
  cursor : q.cursor ≤ b.next
  listed : ∀ r ∈ b.records, r ∈ present
  held : ∀ records, q.reading = .passing records →
    Held b q.cursor records ∧ ∀ r ∈ records, r ∈ present
  increasing : emitted.Pairwise fun m n => m.offset < n.offset
  behind : ∀ m ∈ emitted, m.offset < q.cursor
  drawn : ∀ m ∈ emitted, ∃ r ∈ present, r.message? = some m
  faithful : ∀ m ∈ emitted, b.Knows m.offset fun r => r.message? = some m
  /-- No message is left out that is still in the bucket. -/
  complete : ∀ r ∈ b.records, r.offset < q.cursor → ∀ m, r.message? = some m → m ∈ emitted
  /-- A reader that waits for a call has seen the whole bucket. -/
  rested : q.reading = .waiting → q.call = false → ∀ r ∈ b.records, r.offset < q.cursor
  received : ∃ received, emitted = received ++ q.outbox

theorem new_reads (b : Bucket) (options : QueueOptions) (outCapacity now : Nat) :
    Reads (.new options outCapacity now : DurableQueue τ) b b.records [] where
  cursor := Nat.zero_le _
  listed := fun _ member => member
  held := by simp [DurableQueue.new]
  increasing := .nil
  behind := by simp
  drawn := by simp
  faithful := by simp
  complete := by simp [DurableQueue.new]
  rested := by simp [DurableQueue.new]
  received := ⟨[], rfl⟩

theorem Reads.follow {q q' : DurableQueue τ} {b b' : Bucket} {present : List Record}
    {emitted : List StoredMessage} (reads : Reads q b present emitted) (follows : b'.Follows b)
    (cursor : q'.cursor = q.cursor) (reading : q'.reading = q.reading)
    (outbox : q'.outbox = q.outbox)
    (rested : q'.reading = .waiting → q'.call = false → ∀ r ∈ b'.records, r.offset < q.cursor) :
    Reads q' b' (present ++ b'.since b.next) emitted where
  cursor := by
    rw [cursor]
    exact Nat.le_trans reads.cursor follows.next
  listed := by
    intro r member
    by_cases old : r.offset < b.next
    · exact List.mem_append_left _ (reads.listed r (follows.old r member old))
    · exact List.mem_append_right _ (List.mem_filter.mpr ⟨member, by simpa using old⟩)
  held := by
    intro records passing
    obtain ⟨held, inside⟩ := reads.held records (reading ▸ passing)
    rw [cursor]
    exact ⟨held.follow follows, fun r member => List.mem_append_left _ (inside r member)⟩
  increasing := reads.increasing
  behind := by
    rw [cursor]
    exact reads.behind
  drawn := by
    intro m member
    obtain ⟨r, inside, holds⟩ := reads.drawn m member
    exact ⟨r, List.mem_append_left _ inside, holds⟩
  faithful := fun m member => (reads.faithful m member).mono follows fun _ _ holds => holds
  complete := by
    intro r member before
    rw [cursor] at before
    have below := reads.cursor
    exact reads.complete r (follows.old r member (by omega)) before
  rested := by
    rw [cursor]
    exact rested
  received := outbox ▸ reads.received

theorem Reads.pass {q : DurableQueue τ} {b : Bucket} {present : List Record}
    {emitted : List StoredMessage} (reads : Reads q b present emitted) {r : Record}
    {rest : List Record} (passing : q.reading = .passing (r :: rest)) {q' : DurableQueue τ}
    (cursor : q'.cursor = r.offset + 1) (reading : q'.reading = .passing rest)
    (outbox : q'.outbox = q.outbox ++ r.message?.toList) :
    Reads q' b present (emitted ++ r.message?.toList) := by
  obtain ⟨held, inside⟩ := reads.held _ passing
  have unread := held.unread r (List.mem_cons_self ..)
  have known := held.known r (List.mem_cons_self ..)
  have own : ∀ m ∈ r.message?.toList, r.message? = some m := by simp
  constructor
  case cursor =>
    rw [cursor]
    exact known.1
  case listed => exact reads.listed
  case held =>
    intro records same
    rw [reading, Reading.passing.injEq] at same
    subst same
    rw [cursor]
    exact ⟨held.pass, fun s member => inside s (List.mem_cons_of_mem _ member)⟩
  case increasing =>
    refine List.pairwise_append.mpr ⟨reads.increasing, ?_, ?_⟩
    · cases r.message? <;> simp
    · intro m member n last
      have before := reads.behind m member
      have offset := Record.message?_offset (own n last)
      omega
  case behind =>
    intro m member
    rw [cursor]
    rcases List.mem_append.mp member with before | last
    · have := reads.behind m before
      omega
    · have offset := Record.message?_offset (own m last)
      omega
  case drawn =>
    intro m member
    rcases List.mem_append.mp member with before | last
    · exact reads.drawn m before
    · exact ⟨r, inside r (List.mem_cons_self ..), own m last⟩
  case faithful =>
    intro m member
    rcases List.mem_append.mp member with before | last
    · exact reads.faithful m before
    · rw [Record.message?_offset (own m last)]
      exact ⟨known.1, fun s inBucket same => known.2 s inBucket same ▸ own m last⟩
  case complete =>
    intro s member before m holds
    rw [cursor] at before
    by_cases old : s.offset < q.cursor
    · exact List.mem_append_left _ (reads.complete s member old m holds)
    · obtain rfl := held.first member (by omega) before
      exact List.mem_append_right _ (by simp [holds])
  case rested => simp [reading]
  case received =>
    obtain ⟨received, all⟩ := reads.received
    exact ⟨received, by rw [outbox, all, List.append_assoc]⟩

theorem Reads.turnTo {q q' : DurableQueue τ} {b : Bucket} {present : List Record}
    {emitted : List StoredMessage} (reads : Reads q b present emitted)
    (cursor : q'.cursor = q.cursor) (outbox : q'.outbox = q.outbox)
    (held : ∀ records, q'.reading = .passing records →
      Held b q'.cursor records ∧ ∀ r ∈ records, r ∈ present)
    (rested : q'.reading = .waiting → q'.call = false → ∀ r ∈ b.records, r.offset < q.cursor) :
    Reads q' b present emitted where
  cursor := cursor ▸ reads.cursor
  listed := reads.listed
  held := held
  increasing := reads.increasing
  behind := cursor ▸ reads.behind
  drawn := reads.drawn
  faithful := reads.faithful
  complete := cursor ▸ reads.complete
  rested := cursor ▸ rested
  received := outbox ▸ reads.received

theorem get_held {b : Bucket} (ordered : b.Ordered) (cursor limit : Nat) :
    Held b cursor (b.get cursor limit) where
  increasing := Bucket.get_increasing ordered ..
  unread := fun _ member => (Bucket.mem_get member).2
  known := fun _ member => ordered.knows (Bucket.mem_get member).1 rfl
  complete := fun _ got _ member unread before =>
    Bucket.get_complete ordered member unread got before

theorem Performed.reads {q q' : DurableQueue τ} {b b' : Bucket} {a : Activity}
    {tickets : List τ} (turn : Performed q b a q' b' tickets) (ordered : b.Ordered)
    (some : 0 < q.options.writeBatchSize) {present : List Record}
    {emitted : List StoredMessage} (reads : Reads q b present emitted) :
    Reads q' b' (present ++ b'.since b.next) (emitted ++ q'.outbox.drop q.outbox.length) := by
  have follows := turn.follows ordered
  have same : present ++ b.since b.next = present := by
    rw [Bucket.since_next ordered, List.append_nil]
  cases turn with
  | stored now time writeTimer some =>
      simp only [List.drop_length, List.append_nil]
      exact reads.follow follows rfl rfl rfl (by simp)
  | deleted now fails deleteTimer =>
      simp only [List.drop_length, List.append_nil]
      exact reads.follow follows rfl rfl rfl fun waits quiet r member =>
        reads.rested waits quiet r (deleteRuns_sublist .. |>.subset member)
  | swept now time sweepTimer found =>
      simp only [List.drop_length, List.append_nil]
      exact reads.follow follows rfl rfl rfl fun waits quiet r member =>
        reads.rested waits quiet r (List.mem_filter.mp member).1
  | unreadable now due waits called =>
      simp only [same, List.drop_length, List.append_nil]
      exact reads.turnTo rfl rfl (by simp) (by simp)
  | rested now waits called none =>
      simp only [same, List.drop_length, List.append_nil]
      exact reads.turnTo rfl rfl (by simp [waits]) fun _ _ => Bucket.get_nil some none
  | fetched now waits called _ =>
      simp only [same, List.drop_length, List.append_nil]
      refine reads.turnTo rfl rfl (fun records passing => ?_) (by simp)
      rw [Reading.passing.injEq] at passing
      subst passing
      exact ⟨get_held ordered ..,
        fun r member => reads.listed r (Bucket.mem_get member).1⟩
  | finished now fails _ =>
      simp only [same, List.drop_length, List.append_nil]
      exact reads.turnTo rfl rfl (by simp) (by simp)
  | retried now fails _ =>
      simp only [same, List.drop_length, List.append_nil]
      exact reads.turnTo rfl rfl (by simp) (by simp)
  | @skipped now fails r rest passing hidden =>
      have none : r.message? = none := by simp [Record.message?, hidden]
      have passed : Reads { q with
          cursor := r.offset + 1, reading := .passing rest, acked := q.acked ++ [r.offset] }
          b present (emitted ++ r.message?.toList) :=
        reads.pass passing rfl rfl (by simp [none])
      simpa [same, none] using passed
  | @passed now fails r rest message left passing decoded room =>
      have holds : r.message? = Option.some ⟨r.offset, message⟩ := by
        simp [Record.message?, decoded]
      have passed : Reads { q with
          cursor := r.offset + 1, reading := .passing rest,
          outbox := q.outbox ++ [⟨r.offset, message⟩] }
          b present (emitted ++ r.message?.toList) :=
        reads.pass passing rfl rfl (by simp [holds])
      simpa [same, holds] using passed
  | _ =>
      simp only [same, List.drop_length, List.append_nil]
      exact reads.turnTo rfl rfl reads.held reads.rested

/-! A receiver that takes all -/

/-- What a receiver gets that takes all that the reader passes on, while nothing else happens. -/
def readOut (b : Bucket) : Nat → DurableQueue τ → List StoredMessage
  | 0, _ => []
  | fuel + 1, q =>
    match q.pop with
    | (q, some m) => m :: readOut b fuel q
    | (q, none) =>
      match q.readNext b 0 false with
      | some q => readOut b fuel q
      | none => []

def Emits (b : Bucket) (q : DurableQueue τ) (messages : List StoredMessage) : Prop :=
  ∃ least, ∀ fuel, least ≤ fuel → readOut b fuel q = messages

theorem Emits.pop {b : Bucket} {q : DurableQueue τ} {m : StoredMessage}
    {rest messages : List StoredMessage} (outbox : q.outbox = m :: rest)
    (later : Emits b { q with outbox := rest } messages) : Emits b q (m :: messages) := by
  obtain ⟨least, reads⟩ := later
  refine ⟨least + 1, ?_⟩
  intro fuel enough
  cases fuel with
  | zero => omega
  | succ fuel => simp [readOut, DurableQueue.pop, outbox, reads fuel (by omega)]

theorem Emits.read {b : Bucket} {q q' : DurableQueue τ} {messages : List StoredMessage}
    (outbox : q.outbox = []) (read : q.readNext b 0 false = some q')
    (later : Emits b q' messages) : Emits b q messages := by
  obtain ⟨least, reads⟩ := later
  refine ⟨least + 1, ?_⟩
  intro fuel enough
  cases fuel with
  | zero => omega
  | succ fuel => simp [readOut, DurableQueue.pop, outbox, read, reads fuel (by omega)]

theorem Emits.rest {b : Bucket} {q : DurableQueue τ} (outbox : q.outbox = [])
    (read : q.readNext b 0 false = none) : Emits b q [] := by
  refine ⟨0, ?_⟩
  intro fuel _
  cases fuel with
  | zero => rfl
  | succ fuel => simp [readOut, DurableQueue.pop, outbox, read]

def cursorAfter (cursor : Nat) (records : List Record) : Nat :=
  records.foldl (fun _ r => r.offset + 1) cursor

/-- The receiver gets the messages of the records that the reader holds, and then what the reader
finds after them. -/
theorem passing_emits {b : Bucket} {records : List Record} {q : DurableQueue τ}
    {messages : List StoredMessage} (passing : q.reading = .passing records)
    (outbox : q.outbox = []) (room : 0 < q.outCapacity)
    (later : ∀ acked, Emits b { q with
      reading := .waiting, call := true, cursor := cursorAfter q.cursor records, acked } messages) :
    Emits b q (records.filterMap Record.message? ++ messages) := by
  induction records generalizing q with
  | nil =>
      have read : q.readNext b 0 false = some { q with reading := .waiting, call := true } := by
        simp [readNext, passOn, passing, callReader]
      exact .read outbox read (later q.acked)
  | cons r rest ih =>
      cases decoded : Codec.Binary.decode r.data with
      | none =>
          have holds : r.message? = none := by simp [Record.message?, decoded]
          rw [List.filterMap_cons_none holds]
          have read : q.readNext b 0 false = some { q with
              cursor := r.offset + 1, reading := .passing rest,
              acked := q.acked ++ [r.offset] } := by
            simp [readNext, passOn, passing, decoded]
          exact .read outbox read (ih rfl outbox room later)
      | some decoding =>
          obtain ⟨message, left⟩ := decoding
          have holds : r.message? = some ⟨r.offset, message⟩ := by
            simp [Record.message?, decoded]
          rw [List.filterMap_cons_some holds]
          have read : q.readNext b 0 false = some { q with
              cursor := r.offset + 1, reading := .passing rest,
              outbox := [⟨r.offset, message⟩] } := by
            simp [readNext, passOn, passing, decoded, outbox, room]
          refine .read outbox read (.pop rfl (ih rfl rfl room ?_))
          simpa [outbox, cursorAfter] using later

theorem called_emits {b : Bucket} (ordered : b.Ordered) {q : DurableQueue τ}
    (waits : q.reading = .waiting) (called : q.call = true) (outbox : q.outbox = [])
    (room : 0 < q.outCapacity) (some : 0 < q.options.writeBatchSize) :
    Emits b q ((b.records.filter fun r => q.cursor ≤ r.offset).filterMap Record.message?) := by
  -- every batch that is read leaves fewer records unread
  generalize unread : (b.records.filter fun r => q.cursor ≤ r.offset).length = count
  induction count using Nat.strongRecOn generalizing q with
  | _ count ih =>
      have wakes : q.readNext b 0 false = Option.some (q.wake b 0 false) := by
        simp [readNext, waits, called]
      rcases (b.get q.cursor q.options.writeBatchSize).eq_nil_or_concat with none | ⟨first, last, got⟩
      · have read : b.records.filter (fun r => q.cursor ≤ r.offset) = [] := by
          apply List.filter_eq_nil_iff.mpr
          intro r member
          simpa using Bucket.get_nil some none r member
        rw [read]
        refine .read outbox wakes (.rest ?_ ?_)
        · simp [wake, none, outbox]
        · simp [wake, none, readNext, waits]
      · rw [List.concat_eq_append] at got
        have split := Bucket.get_append ordered got
        have fetches : q.wake b 0 false = { q with
            call := false, reading := .passing (b.get q.cursor q.options.writeBatchSize) } := by
          simp [wake, got]
        have cursor : cursorAfter q.cursor (b.get q.cursor q.options.writeBatchSize) =
            last.offset + 1 := by
          simp [got, cursorAfter]
        have fewer : (b.records.filter fun r => last.offset + 1 ≤ r.offset).length < count := by
          rw [← unread, split, List.length_append, got, List.length_append]
          simp
        rw [split, List.filterMap_append]
        refine .read outbox wakes (fetches ▸ passing_emits rfl outbox room fun acked => ?_)
        simp only [cursor]
        exact ih _ fewer rfl rfl outbox room some rfl

/-- From a queue that has just been opened, a receiver that takes all gets the messages of all the
records in the bucket, by increasing offset. -/
theorem new_emits {b : Bucket} (ordered : b.Ordered) {options : QueueOptions}
    (some : 0 < options.writeBatchSize) (outCapacity now : Nat) :
    Emits b (.new options outCapacity now : DurableQueue τ)
      (b.records.filterMap Record.message?) := by
  have all : b.records.filter (fun r => 0 ≤ r.offset) = b.records :=
    List.filter_eq_self.mpr fun _ _ => by simp
  have emits := called_emits (q := (.new options outCapacity now : DurableQueue τ)) ordered rfl rfl
    rfl (by simp only [DurableQueue.new]; omega) some
  rwa [show (DurableQueue.new options outCapacity now : DurableQueue τ).cursor = 0 from rfl, all]
    at emits

/-! The deleter -/

def Collected (q : DurableQueue τ) (b : Bucket) (released : Record → Prop) : Prop :=
  ∀ o, o ∈ q.acked ∨ o ∈ q.pending → b.Knows o released

theorem deleteRuns_pending {runs : List (Nat × Nat)} {pending : List Nat} {b : Bucket}
    {fails : Nat × Nat → Bool} {o : Nat}
    (member : o ∈ (deleteRuns runs pending b fails).1) : o ∈ pending := by
  rw [deleteRuns_eq] at member
  exact (List.mem_filter.mp member).1

theorem flushDeletes_removed {q : DurableQueue τ} {b : Bucket} {fails : Nat × Nat → Bool}
    {r : Record} (before : r ∈ b.records) (after : r ∉ (q.flushDeletes b fails).2.records) :
    r.offset ∈ q.pending := by
  simp only [flushDeletes, deleteRuns_eq, List.mem_filter, before, true_and, Bool.not_eq_true',
    Bool.not_eq_false] at after
  exact Offsets.within_runs.mp (Offsets.within_mono (List.takeWhile_subset _) after)

theorem Collected.mono {q q' : DurableQueue τ} {b b' : Bucket} {P Q : Record → Prop}
    (collected : Collected q b P) (follows : b'.Follows b)
    (fewer : ∀ o, o ∈ q'.acked ∨ o ∈ q'.pending → o ∈ q.acked ∨ o ∈ q.pending)
    (weaker : ∀ r ∈ b.records, P r → Q r) : Collected q' b' Q :=
  fun o member => (collected o (fewer o member)).mono follows weaker

theorem Performed.keeps_collected {q q' : DurableQueue τ} {b b' : Bucket} {a : Activity}
    {tickets : List τ} (turn : Performed q b a q' b' tickets) (ordered : b.Ordered)
    {P : Record → Prop} (collected : Collected q b P)
    (held : ∀ records, q.reading = .passing records → Held b q.cursor records)
    (undecodable : ∀ r ∈ b.records, Codec.Binary.decode r.data = none → P r) :
    Collected q' b' P := by
  have follows := turn.follows ordered
  have weaker : ∀ r ∈ b.records, P r → P r := fun _ _ known => known
  cases turn with
  | @skipped now fails r rest passing hidden =>
      intro o member
      simp only [List.mem_append, List.mem_singleton, or_assoc] at member
      rcases member with acked | rfl | pending
      · exact collected o (Or.inl acked)
      · have known := (held _ passing).known r (List.mem_cons_self ..)
        refine ⟨known.1, ?_⟩
        intro s member same
        have equal := known.2 s member same
        exact undecodable s member (equal ▸ hidden)
      · exact collected o (Or.inr pending)
  | @collected o rest acked =>
      refine collected.mono follows (fun p member => ?_) weaker
      simp only [Offsets.mem_insert] at member
      rcases member with later | rfl | pending
      · exact Or.inl (acked ▸ List.mem_cons_of_mem _ later)
      · exact Or.inl (acked ▸ List.mem_cons_self ..)
      · exact Or.inr pending
  | deleted now fails deleteTimer =>
      refine collected.mono follows (fun p member => ?_) weaker
      exact member.imp_right deleteRuns_pending
  | _ => exact collected.mono follows (fun _ member => member) weaker

theorem Performed.removed {q q' : DurableQueue τ} {b b' : Bucket} {a : Activity}
    {tickets : List τ} (turn : Performed q b a q' b' tickets) {r : Record}
    (before : r ∈ b.records) (after : r ∉ b'.records) :
    r.offset ∈ q.pending ∨
      ∃ now time limit, a = .sweep now time false ∧
        expiryLimit q.options.messageExpiry time = .ok (some limit) ∧
        r.time < Int64.ofInt limit := by
  cases turn with
  | stored now time writeTimer some => exact absurd (List.mem_append_left _ before) after
  | deleted now fails deleteTimer =>
      exact Or.inl (flushDeletes_removed before after)
  | @swept now time sweepTimer limit found =>
      refine Or.inr ⟨now, time, limit, rfl, found, ?_⟩
      by_cases expired : r.time < Int64.ofInt limit
      · exact expired
      · exact absurd (Bucket.mem_deleteBefore.mpr ⟨before, expired⟩) after
  | _ => exact absurd before after

theorem Performed.options {q q' : DurableQueue τ} {b b' : Bucket} {a : Activity}
    {tickets : List τ} (turn : Performed q b a q' b' tickets) : q'.options = q.options := by
  cases turn <;> rfl

/-! Users -/

theorem Reads.pop {q : DurableQueue τ} {b : Bucket} {present : List Record}
    {emitted : List StoredMessage} (reads : Reads q b present emitted) {m : StoredMessage}
    {rest : List StoredMessage} (outbox : q.outbox = m :: rest) :
    m ∈ emitted ∧ Reads { q with outbox := rest } b present emitted := by
  obtain ⟨received, all⟩ := reads.received
  rw [outbox] at all
  refine ⟨by simp [all], ?_⟩
  exact { reads with received := ⟨received ++ [m], by simp [all]⟩ }

theorem acknowledge_options (q : DurableQueue τ) (offset : Nat) :
    (q.acknowledge offset).options = q.options := by
  unfold DurableQueue.acknowledge
  split <;> rfl

theorem Reads.acknowledge {q : DurableQueue τ} {b : Bucket} {present : List Record}
    {emitted : List StoredMessage} (reads : Reads q b present emitted) (offset : Nat) :
    Reads (q.acknowledge offset) b present emitted := by
  unfold DurableQueue.acknowledge
  split
  · exact reads
  · exact reads.turnTo rfl rfl reads.held reads.rested

theorem Collected.acknowledge {q : DurableQueue τ} {b : Bucket} {P : Record → Prop}
    (collected : Collected q b P) {offset : Nat} (known : b.Knows offset P) :
    Collected (q.acknowledge offset) b P := by
  unfold DurableQueue.acknowledge
  split
  · exact collected
  · intro o member
    simp only [List.mem_append, List.mem_singleton, or_assoc] at member
    rcases member with acked | rfl | pending
    · exact collected o (Or.inl acked)
    · exact known
    · exact collected o (Or.inr pending)

/-! Closing -/

theorem mem_collectAll {acked pending : List Nat} {o : Nat} :
    o ∈ acked.foldl (fun set o => Offsets.insert o set) pending ↔ o ∈ acked ∨ o ∈ pending := by
  induction acked generalizing pending with
  | nil => simp
  | cons p rest ih =>
      rw [List.foldl_cons, ih, Offsets.mem_insert, List.mem_cons]
      exact or_left_comm.trans or_assoc.symm

theorem close_removed {q : DurableQueue τ} {b : Bucket} {time : Int64}
    {writeFails : Bool} {deleteFails : Nat × Nat → Bool} {r : Record} (before : r ∈ b.records)
    (after : r ∉ (q.close b time writeFails deleteFails).2.1.records) :
    r.offset ∈ q.acked ∨ r.offset ∈ q.pending := by
  unfold close at after
  split at after
  · exact absurd before after
  · obtain ⟨call, same⟩ := finishWriting_frame q b time writeFails
    have put := finishWriting_keeps q time writeFails before
    simp only [finishDeleting] at after
    split at after
    · have pending := flushDeletes_removed put after
      rw [same] at pending
      exact mem_collectAll.mp pending
    · exact absurd put after

theorem close_follows (q : DurableQueue τ) {b : Bucket} (ordered : b.Ordered) (time : Int64)
    (writeFails : Bool) (deleteFails : Nat × Nat → Bool) :
    (q.close b time writeFails deleteFails).2.1.Follows b := by
  unfold close
  split
  · exact .refl ordered
  · obtain ⟨batch, _, _, _, _, wrote⟩ := finishWriting_wrote q ordered time writeFails
    have deleted := finishDeleting_wrote (q.finishWriting b time writeFails).1 wrote.ordered
      deleteFails
    exact deleted.follows.trans wrote.follows

end DurableQueue

end MqttBroker
