import MqttBroker.Proofs.DurableReader

/-!
Acknowledged offsets on their way out of the bucket. A flush deletes their runs up to the first that
fails, and takes from the set what it has deleted; what was acknowledged stays with the deleter
until its record is gone.
-/

namespace MqttBroker.DurableQueue

variable {τ : Type}

/-! One flush -/

/-- `deleteRuns`, together with the runs that it asks the bucket to delete. -/
def deleteLogged : List (Nat × Nat) → List Nat → Bucket → (fails : Nat × Nat → Bool) →
    List (Nat × Nat) × List Nat × Bucket
  | [], pending, b, _ => ([], pending, b)
  | (start, stop) :: rest, pending, b, fails =>
    if fails (start, stop) then ([(start, stop)], pending, b)
    else
      let (asked, after) :=
        deleteLogged rest (Offsets.outside start stop pending) (b.deleteRange start stop).1 fails
      ((start, stop) :: asked, after)

theorem deleteLogged_outcome (runs : List (Nat × Nat)) (pending : List Nat) (b : Bucket)
    (fails : Nat × Nat → Bool) :
    (deleteLogged runs pending b fails).2 = deleteRuns runs pending b fails := by
  induction runs generalizing pending b with
  | nil => rfl
  | cons run runs ih =>
      simp only [deleteLogged, deleteRuns]
      split
      · rfl
      · exact ih ..

theorem deleteLogged_asked (runs : List (Nat × Nat)) (pending : List Nat) (b : Bucket)
    (fails : Nat × Nat → Bool) :
    (deleteLogged runs pending b fails).1 = (runs.takeWhile fun run => !fails run) ++
      (runs.dropWhile fun run => !fails run).take 1 := by
  induction runs generalizing pending b with
  | nil => rfl
  | cons run runs ih =>
      simp only [deleteLogged]
      cases failed : fails run with
      | true => simp [failed]
      | false => simp [failed, ih]

/-- A flush of the pending offsets, which are those of `runs`: it deletes the runs `done`, and not
those that are `left`. -/
structure Flushed (q : DurableQueue τ) (b : Bucket) (fails : Nat × Nat → Bool)
    (runs done left : List (Nat × Nat)) : Prop where
  split : Offsets.Split runs q.pending
  words : ∀ run ∈ runs, run.2 < Word.bound
  cut : runs = done ++ left
  succeeded : ∀ run ∈ done, fails run = false
  failed : ∀ run ∈ left.head?, fails run = true
  asked : deleteLogged (Offsets.runs q.pending) q.pending b fails =
    (done ++ left.take 1, (q.flushDeletes b fails).1.pending, (q.flushDeletes b fails).2)
  queue : (q.flushDeletes b fails).1 =
    { q with pending := q.pending.filter fun o => !Offsets.within done o }
  bucket : (q.flushDeletes b fails).2 =
    { b with records := b.records.filter fun r =>
        !(decide (r.offset ∈ q.pending) && Offsets.within done r.offset) }

theorem flush_flushed {q : DurableQueue τ} (b : Bucket) (fails : Nat × Nat → Bool)
    (increasing : q.pending.Pairwise (· < ·)) (small : ∀ o ∈ q.pending, o < Word.bound - 1) :
    Flushed q b fails (Offsets.runs q.pending)
      ((Offsets.runs q.pending).takeWhile fun run => !fails run)
      ((Offsets.runs q.pending).dropWhile fun run => !fails run) where
  split := Offsets.runs_split increasing
  words := by
    intro run member
    have filled := Offsets.runs_filled run member
    have last : run.2 - 1 ∈ q.pending :=
      ((Offsets.runs_split increasing).covers _).mpr ⟨run, member, by omega, by omega⟩
    have := small _ last
    omega
  cut := List.takeWhile_append_dropWhile.symm
  succeeded := by
    intro run member
    simpa using List.all_eq_true.mp List.all_takeWhile run member
  failed := by
    intro run first
    have stops := List.head?_dropWhile_not (fun run => !fails run) (Offsets.runs q.pending)
    simpa [Option.mem_def.mp first] using stops
  asked := by
    rw [← deleteLogged_asked (Offsets.runs q.pending) q.pending b fails]
    simp only [flushDeletes, ← deleteLogged_outcome]
  queue := by simp only [flushDeletes, deleteRuns_eq]
  bucket := by
    simp only [flushDeletes, deleteRuns_eq]
    congr 1
    apply List.filter_congr
    intro r _
    by_cases pending : r.offset ∈ q.pending
    · simp [pending]
    · have spared : Offsets.within ((Offsets.runs q.pending).takeWhile fun run => !fails run)
          r.offset = false := by
        rw [Bool.eq_false_iff]
        intro gone
        exact pending (Offsets.within_runs.mp
          (Offsets.within_mono (List.takeWhile_subset _) gone))
      simp [pending, spared]

/-! The deleter's set from turn to turn -/

/-- The offset was acknowledged, and its record is still to be deleted. -/
def Owes (q : DurableQueue τ) (o : Nat) : Prop := o ∈ q.acked ∨ o ∈ q.pending

def Removed (b b' : Bucket) (o : Nat) : Prop := ∀ r ∈ b.records, r.offset = o → r ∉ b'.records

/-- What has left the bucket does not come back, since offsets are not given twice. -/
theorem Removed.mono {b b' b'' : Bucket} {o : Nat} (ordered : b.Ordered) (first : b'.Follows b)
    (later : b''.Follows b') (removed : Removed b b' o ∨ Removed b' b'' o) : Removed b b'' o := by
  intro r member same last
  have stays : r ∈ b'.records :=
    later.old r last (Nat.lt_of_lt_of_le (ordered.below r member) first.next)
  rcases removed with early | late
  · exact early r member same stays
  · exact late r stays same last

theorem deleteRuns_owes {pending : List Nat} {o : Nat} (owed : o ∈ pending)
    (runs : List (Nat × Nat)) (b : Bucket) (fails : Nat × Nat → Bool) :
    o ∈ (deleteRuns runs pending b fails).1 ∨
      Removed b (deleteRuns runs pending b fails).2 o := by
  rw [deleteRuns_eq]
  cases gone : Offsets.within (runs.takeWhile fun run => !fails run) o with
  | false => exact Or.inl (List.mem_filter.mpr ⟨owed, by simp [gone]⟩)
  | true =>
      refine Or.inr fun r _ same kept => ?_
      have stays := (List.mem_filter.mp kept).2
      simp [same, gone] at stays

theorem deleteRuns_increasing {pending : List Nat} (increasing : pending.Pairwise (· < ·))
    (runs : List (Nat × Nat)) (b : Bucket) (fails : Nat × Nat → Bool) :
    (deleteRuns runs pending b fails).1.Pairwise (· < ·) := by
  rw [deleteRuns_eq]
  exact increasing.filter _

theorem collectAll_increasing (acked : List Nat) {pending : List Nat}
    (increasing : pending.Pairwise (· < ·)) :
    (acked.foldl (fun set o => Offsets.insert o set) pending).Pairwise (· < ·) := by
  induction acked generalizing pending with
  | nil => exact increasing
  | cons o rest ih => exact ih (Offsets.insert_increasing o increasing)

structure Handles (q : DurableQueue τ) (b : Bucket) (q' : DurableQueue τ) (b' : Bucket)
    (fresh : Nat → Prop) : Prop where
  increasing : q.pending.Pairwise (· < ·) → q'.pending.Pairwise (· < ·)
  drawn : ∀ o, q'.Owes o → q.Owes o ∨ fresh o
  kept : ∀ o, q.Owes o → q'.Owes o ∨ Removed b b' o

theorem Handles.beside {q q' : DurableQueue τ} {fresh : Nat → Prop} (b b' : Bucket)
    (same : q'.acked = q.acked ∧ q'.pending = q.pending) : Handles q b q' b' fresh := by
  obtain ⟨acked, pending⟩ := same
  have owes (o : Nat) : q'.Owes o ↔ q.Owes o := by rw [Owes, Owes, acked, pending]
  exact ⟨fun increasing => pending ▸ increasing, fun o owed => Or.inl ((owes o).mp owed),
    fun o owed => Or.inl ((owes o).mpr owed)⟩

theorem Handles.acknowledged {q q' : DurableQueue τ} {fresh : Nat → Prop} {p : Nat} (is : fresh p)
    (b b' : Bucket) (same : q'.acked = q.acked ++ [p] ∧ q'.pending = q.pending) :
    Handles q b q' b' fresh := by
  obtain ⟨acked, pending⟩ := same
  have owes (o : Nat) : q'.Owes o ↔ q.Owes o ∨ o = p := by
    rw [Owes, Owes, acked, pending, List.mem_append, List.mem_singleton, or_right_comm]
  refine ⟨fun increasing => pending ▸ increasing, fun o owed => ?_, fun o owed => ?_⟩
  · rcases (owes o).mp owed with before | rfl
    · exact Or.inl before
    · exact Or.inr is
  · exact Or.inl ((owes o).mpr (Or.inl owed))

/-- An offset that a reader who holds these records acknowledges himself, since there is no message
in the record. -/
def Unreadable (reading : Reading) (o : Nat) : Prop :=
  ∃ r rest, reading = .passing (r :: rest) ∧ Codec.Binary.decode r.data = none ∧ r.offset = o

theorem Performed.handles {q q' : DurableQueue τ} {b b' : Bucket} {a : Activity}
    {tickets : List τ} (turn : Performed q b a q' b' tickets) :
    Handles q b q' b' fun o => (∃ now fails, a = .read now fails) ∧ Unreadable q.reading o := by
  cases turn with
  | @skipped now fails r rest passing hidden =>
      exact .acknowledged ⟨⟨now, fails, rfl⟩, r, rest, passing, hidden, rfl⟩ _ _ ⟨rfl, rfl⟩
  | @collected p rest acked =>
      have same (o : Nat) : Owes { q with acked := rest, pending := Offsets.insert p q.pending } o ↔
          q.Owes o := by
        simp only [Owes, acked, List.mem_cons, Offsets.mem_insert]
        exact or_left_comm.trans or_assoc.symm
      exact ⟨Offsets.insert_increasing p, fun o owes => Or.inl ((same o).mp owes),
        fun o owed => Or.inl ((same o).mpr owed)⟩
  | deleted now fails deleteTimer =>
      refine ⟨fun increasing => deleteRuns_increasing increasing .., fun o owes => ?_, ?_⟩
      · exact Or.inl (owes.imp_right deleteRuns_pending)
      · rintro o (acked | pending)
        · exact Or.inl (Or.inl acked)
        · exact (deleteRuns_owes pending ..).imp_left Or.inr
  | _ => exact .beside _ _ ⟨rfl, rfl⟩

theorem finishDeleting_handles (q : DurableQueue τ) (b : Bucket) (fails : Nat × Nat → Bool)
    (fresh : Nat → Prop) :
    Handles q b (q.finishDeleting b fails).1 (q.finishDeleting b fails).2 fresh := by
  unfold finishDeleting
  dsimp only
  split
  · refine ⟨fun increasing => ?_, fun o owes => Or.inl ?_, fun o owed => ?_⟩
    · exact deleteRuns_increasing (collectAll_increasing _ increasing) ..
    · exact mem_collectAll.mp (deleteRuns_pending (owes.resolve_left List.not_mem_nil))
    · exact (deleteRuns_owes (mem_collectAll.mpr owed) ..).imp_left Or.inr
  · refine ⟨collectAll_increasing _, fun o owes => Or.inl ?_, fun o owed => ?_⟩
    · exact mem_collectAll.mp (owes.resolve_left List.not_mem_nil)
    · exact Or.inl (Or.inr (mem_collectAll.mpr owed))

theorem close_handles (q : DurableQueue τ) (b : Bucket) (time : Int64) (writeFails : Bool)
    (deleteFails : Nat × Nat → Bool) (fresh : Nat → Prop) :
    Handles q b (q.close b time writeFails deleteFails).1
      (q.close b time writeFails deleteFails).2.1 fresh := by
  unfold close
  split
  · exact .beside _ _ ⟨rfl, rfl⟩
  · obtain ⟨call, same⟩ := finishWriting_frame q b time writeFails
    have put : ∀ r ∈ b.records, r ∈ (q.finishWriting b time writeFails).2.1.records :=
      fun r member => finishWriting_keeps q time writeFails member
    generalize q.finishWriting b time writeFails = written at same put ⊢
    obtain ⟨q₁, b₁, tickets, refused⟩ := written
    dsimp only at same put
    have handles := finishDeleting_handles q₁ b₁ deleteFails fresh
    subst same
    refine ⟨handles.increasing, handles.drawn, fun o owed => ?_⟩
    exact (handles.kept o owed).imp_right fun removed r member => removed r (put r member)

namespace Course

/-- The move acknowledges the offset: a user does, or the reader, who finds no message there. -/
def Acknowledges (c : Course τ) (o : Nat) (move : Move τ) : Prop :=
  c.queue.closed = false ∧
    (move = .acknowledge o ∨
      (∃ now fails, move = .turn (.read now fails)) ∧ Unreadable c.queue.reading o)

theorem step_handles (c : Course τ) (move : Move τ) :
    Handles c.queue c.bucket (c.step move).queue (c.step move).bucket (c.Acknowledges · move) := by
  cases move with
  | push ticket p =>
      have same : (c.step (.push ticket p)).queue.acked = c.queue.acked ∧
          (c.step (.push ticket p)).queue.pending = c.queue.pending := by
        cases closed : c.queue.closed <;> simp [step, DurableQueue.push, closed]
      exact .beside _ _ same
  | turn a =>
      cases closed : c.queue.closed with
      | true =>
          have still := perform_of_closed closed c.bucket a
          exact .beside _ _ (by simp only [step, still, and_self])
      | false =>
          have handles := (perform_performed c.queue c.bucket a).handles
          refine ⟨handles.increasing, fun o owes => (handles.drawn o owes).imp_right ?_,
            handles.kept⟩
          rintro ⟨⟨now, fails, rfl⟩, unreadable⟩
          exact ⟨closed, Or.inr ⟨⟨now, fails, rfl⟩, unreadable⟩⟩
  | pop =>
      simp only [step, DurableQueue.pop]
      split <;> exact .beside _ _ ⟨rfl, rfl⟩
  | acknowledge p =>
      simp only [step, DurableQueue.acknowledge]
      split
      · exact .beside _ _ ⟨rfl, rfl⟩
      · rename_i opened
        exact .acknowledged ⟨by simpa using opened, Or.inl rfl⟩ _ _ ⟨rfl, rfl⟩
  | close time writeFails deleteFails =>
      have handles := close_handles c.queue c.bucket time writeFails deleteFails
        (c.Acknowledges · (.close time writeFails deleteFails))
      simp only [step]
      split
      · exact .beside _ _ ⟨rfl, rfl⟩
      · exact handles

theorem step_acknowledged {c : Course τ} {o : Nat} {move : Move τ}
    (acknowledges : c.Acknowledges o move) : (c.step move).queue.Owes o := by
  obtain ⟨opened, rfl | ⟨⟨now, fails, rfl⟩, unreadable⟩⟩ := acknowledges
  · simp [step, DurableQueue.acknowledge, opened, Owes]
  · obtain ⟨r, rest, passing, hidden, rfl⟩ := unreadable
    simp [step, perform, opened, readNext, passing, passOn, hidden, Owes]

theorem step_follows {c : Course τ} (ordered : c.bucket.Ordered) (move : Move τ) :
    (c.step move).bucket.Follows c.bucket := by
  cases move with
  | push ticket p =>
      simp only [step]
      split <;> exact .refl ordered
  | turn a => exact (perform_performed c.queue c.bucket a).follows ordered
  | pop => exact .refl ordered
  | acknowledge p => exact .refl ordered
  | close time writeFails deleteFails =>
      simp only [step]
      split
      · exact .refl ordered
      · exact close_follows c.queue ordered time writeFails deleteFails

theorem step_removed {c : Course τ} {move : Move τ} {r : Record} (before : r ∈ c.bucket.records)
    (after : r ∉ (c.step move).bucket.records)
    (unswept : ∀ now time fails, move ≠ .turn (.sweep now time fails)) :
    c.queue.Owes r.offset := by
  cases move with
  | push ticket p =>
      simp only [step] at after
      split at after <;> exact absurd before after
  | turn a =>
      rcases (perform_performed c.queue c.bucket a).removed before after with
        pending | ⟨now, time, _, rfl, _⟩
      · exact Or.inr pending
      · exact absurd rfl (unswept now time false)
  | pop => exact absurd before after
  | acknowledge p => exact absurd before after
  | close time writeFails deleteFails =>
      simp only [step] at after
      split at after
      · exact absurd before after
      · exact close_removed before after

theorem run_follows {c : Course τ} (ordered : c.bucket.Ordered) (moves : List (Move τ)) :
    (c.run moves).bucket.Follows c.bucket := by
  induction moves generalizing c with
  | nil => exact .refl ordered
  | cons move moves ih =>
      have first := step_follows ordered move
      exact (ih first.ordered).trans first

theorem run_increasing {c : Course τ} (increasing : c.queue.pending.Pairwise (· < ·))
    (moves : List (Move τ)) : (c.run moves).queue.pending.Pairwise (· < ·) := by
  induction moves generalizing c with
  | nil => exact increasing
  | cons move moves ih => exact ih ((step_handles c move).increasing increasing)

/-- An offset stays with the deleter until no record is left of those that had it. -/
theorem run_owes {c : Course τ} (ordered : c.bucket.Ordered) {o : Nat} (owed : c.queue.Owes o)
    (moves : List (Move τ)) :
    (c.run moves).queue.Owes o ∨ Removed c.bucket (c.run moves).bucket o := by
  induction moves generalizing c with
  | nil => exact Or.inl owed
  | cons move moves ih =>
      have first := step_follows ordered move
      have later := run_follows first.ordered moves
      rcases (step_handles c move).kept o owed with owes | removed
      · exact (ih first.ordered owes).imp_right fun late => .mono ordered first later (Or.inr late)
      · exact Or.inr (.mono ordered first later (Or.inl removed))

theorem run_owed {c : Course τ} {o : Nat} {moves : List (Move τ)}
    (owes : (c.run moves).queue.Owes o) :
    c.queue.Owes o ∨ ∃ before move after, moves = before ++ move :: after ∧
      (c.run before).Acknowledges o move := by
  induction moves generalizing c with
  | nil => exact Or.inl owes
  | cons move moves ih =>
      rcases ih owes with here | ⟨before, other, after, rfl, acknowledges⟩
      · rcases (step_handles c move).drawn o here with owed | acknowledges
        · exact Or.inl owed
        · exact Or.inr ⟨[], move, moves, rfl, acknowledges⟩
      · exact Or.inr ⟨move :: before, other, after, rfl, acknowledges⟩

/-- A flush deletes runs of pending offsets from the bucket and from its set up to the first that
fails. In every course of a queue, only what was acknowledged is deleted, sweeps apart, and what
was acknowledged is with the deleter until it is deleted. -/
theorem flush_loses_nothing :
    (∀ (q : DurableQueue τ) (b : Bucket) (fails : Nat × Nat → Bool),
      q.pending.Pairwise (· < ·) → (∀ o ∈ q.pending, o < Word.bound - 1) →
        ∃ runs done left, Flushed q b fails runs done left) ∧
    ∀ (options : QueueOptions) (outCapacity now : Nat) (start : Bucket), start.Ordered →
      ∀ before : List (Move τ),
        let first : Course τ := opened options outCapacity now start
        let c := first.run before
        c.queue.pending.Pairwise (· < ·) ∧
        (∀ r ∈ c.bucket.records, ∀ move, r ∉ (c.step move).bucket.records →
          (∀ now time fails, move ≠ .turn (.sweep now time fails)) →
          ∃ earlier other later, before = earlier ++ other :: later ∧
            (first.run earlier).Acknowledges r.offset other) ∧
        ∀ o move, c.Acknowledges o move → ∀ after,
          (c.run (move :: after)).queue.Owes o ∨
            Removed c.bucket (c.run (move :: after)).bucket o := by
  refine ⟨fun q b fails increasing small => ⟨_, _, _, flush_flushed b fails increasing small⟩, ?_⟩
  intro options outCapacity now start ordered before first c
  have follows : c.bucket.Follows start := run_follows (c := first) ordered before
  refine ⟨run_increasing (c := first) .nil before, fun r member move gone unswept => ?_, ?_⟩
  · refine (run_owed (step_removed member gone unswept)).resolve_left fun owed => ?_
    exact owed.elim List.not_mem_nil List.not_mem_nil
  · intro o move acknowledges after
    have next := step_follows follows.ordered move
    have later := run_follows next.ordered after
    exact (run_owes next.ordered (step_acknowledged acknowledges) after).imp_right fun removed =>
      .mono follows.ordered next later (Or.inr removed)

def eight : Bucket where
  name := "c"
  records := (List.range' 1 8).map fun o => ⟨o, 0, []⟩
  next := 9

def threeRuns : DurableQueue Nat :=
  { DurableQueue.new ⟨1, 10, 9, 10, 0, 0⟩ 1 0 with pending := [1, 2, 3, 5, 7, 8] }

def halfFlushed : List (Move Nat) :=
  [.acknowledge 4, .acknowledge 2, .turn .collect, .turn .collect,
    .turn (.delete 0 fun run => run == (4, 5))]

theorem threeRuns_flushed :
    (∃ runs done left, Flushed threeRuns eight (fun run => run == (5, 6)) runs done left) ∧
    let first : Course Nat := opened ⟨1, 10, 9, 10, 0, 0⟩ 1 0 eight
    (∃ earlier other later, halfFlushed = earlier ++ other :: later ∧
      (first.run earlier).Acknowledges 4 other) ∧
    ((first.run halfFlushed).queue.Owes 4 ∨
      Removed first.bucket (first.run halfFlushed).bucket 4) := by
  obtain ⟨flushes, courses⟩ := flush_loses_nothing (τ := Nat)
  have ordered : eight.Ordered := ⟨by decide, by decide⟩
  refine ⟨flushes threeRuns eight _ (by decide) (by decide), ?_, ?_⟩
  · obtain ⟨_, deleted, _⟩ := courses ⟨1, 10, 9, 10, 0, 0⟩ 1 0 eight ordered halfFlushed
    exact deleted ⟨4, 0, []⟩ (by decide) (.turn (.delete 0 fun _ => false)) (by decide) (by simp)
  · obtain ⟨_, _, kept⟩ := courses ⟨1, 10, 9, 10, 0, 0⟩ 1 0 eight ordered []
    exact kept 4 (.acknowledge 4) ⟨rfl, Or.inl rfl⟩ _

example : let after := threeRuns.flushDeletes eight fun run => run == (5, 6)
    after.1.pending = [5, 7, 8] ∧ after.2.offsets = [4, 5, 6, 7, 8] := by decide

end Course

end MqttBroker.DurableQueue
