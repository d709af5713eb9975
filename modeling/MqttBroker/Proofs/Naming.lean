import MqttBroker.Proofs.DurableSteps
import MqttBroker.Proofs.DurableWriter
import MqttBroker.Proofs.Memory
import MqttBroker.Proofs.Tickets

/-!
Which bucket a name leads to. What is done under one name leaves the buckets of all other names as
they are.
-/

namespace MqttBroker

namespace DurableQueue

variable {τ : Type}

theorem deleteRuns_name (runs : List (Nat × Nat)) (pending : List Nat) (b : Bucket)
    (fails : Nat × Nat → Bool) : (deleteRuns runs pending b fails).2.name = b.name := by
  rw [deleteRuns_eq]

theorem Performed.name {q q' : DurableQueue τ} {b b' : Bucket} {a : Activity} {done : List τ}
    (turn : Performed q b a q' b' done) : b'.name = b.name := by
  cases turn with
  | deleted now fails deleteTimer => exact deleteRuns_name ..
  | _ => rfl

theorem performAll_name (q : DurableQueue τ) (b : Bucket) (activities : List Activity) :
    (q.performAll b activities).2.1.name = b.name := by
  induction activities generalizing q b with
  | nil => rfl
  | cons a rest ih => exact (ih ..).trans (perform_performed q b a).name

theorem flush_name (q : DurableQueue τ) (b : Bucket) (time : Int64) (fails : Bool) :
    (q.flush b time fails).2.1.name = b.name :=
  (writeTick_performed q b 0 time fails).name

theorem finishDeleting_name (q : DurableQueue τ) (b : Bucket) (fails : Nat × Nat → Bool) :
    (q.finishDeleting b fails).2.name = b.name := by
  unfold finishDeleting
  dsimp only
  split
  · exact deleteRuns_name ..
  · rfl

theorem close_name (q : DurableQueue τ) (b : Bucket) (time : Int64) (writeFails : Bool)
    (deleteFails : Nat × Nat → Bool) :
    (q.close b time writeFails deleteFails).2.1.name = b.name := by
  unfold close
  split
  · rfl
  · exact (finishDeleting_name ..).trans (flush_name ..)

end DurableQueue

namespace Storage.Memory

structure Named (m : Memory) : Prop where
  named : ∀ name h, m.names.get? name = some h → ∃ b, m.find? h = some b ∧ b.name = name
  given : ∀ h b, m.find? h = some b → h < m.opened

/-- Only the name has been given to another bucket or none, and only buckets of that name have
changed. -/
structure Local (name : String) (m m' : Memory) : Prop where
  names : ∀ other, other ≠ name → m'.names.get? other = m.names.get? other
  buckets : ∀ h b, m.find? h = some b → b.name ≠ name → m'.find? h = some b

theorem Local.refl (name : String) (m : Memory) : Local name m m :=
  ⟨fun _ _ => rfl, fun _ _ found _ => found⟩

theorem Local.trans {name : String} {m m' m'' : Memory} (first : Local name m m')
    (second : Local name m' m'') : Local name m m'' :=
  ⟨fun other apart => (second.names other apart).trans (first.names other apart),
    fun h b found apart => second.buckets h b (first.buckets h b found apart) apart⟩

theorem named_empty : Named {} where
  named _ _ held := nomatch held
  given _ _ found := nomatch found

theorem Named.of_eq {m m' : Memory} (named : m.Named) (names : m'.names = m.names)
    (buckets : m'.buckets = m.buckets) (opened : m'.opened = m.opened) : m'.Named := by
  constructor
  · intro name h held
    rw [names] at held
    rw [find?, buckets]
    exact named.named name h held
  · intro h b found
    rw [find?, buckets] at found
    rw [opened]
    exact named.given h b found

theorem Local.of_eq {name : String} {m m' : Memory} (names : m'.names = m.names)
    (buckets : m'.buckets = m.buckets) : Local name m m' :=
  ⟨fun _ _ => by rw [names], fun _ _ found _ => by rw [find?, buckets]; exact found⟩

theorem Named.replace {m : Memory} (named : m.Named) {h : Handle} {b b' : Bucket}
    (found : m.find? h = some b) (same : b'.name = b.name) : (m.replace h b').Named := by
  constructor
  · intro name k held
    rw [find?_insert]
    obtain ⟨c, here, own⟩ := named.named name k held
    split
    · rename_i mine
      rw [mine, found] at here
      cases here
      exact ⟨b', rfl, same.trans own⟩
    · exact ⟨c, here, own⟩
  · intro k c here
    rw [find?_insert] at here
    split at here
    · rename_i mine
      rw [mine]
      exact named.given h b found
    · exact named.given k c here

theorem replace_local {m : Memory} {h : Handle} {b : Bucket} (found : m.find? h = some b)
    (b' : Bucket) : Local b.name m (m.replace h b') := by
  refine ⟨fun _ _ => rfl, fun k c here apart => ?_⟩
  rw [find?_insert, if_neg]
  · exact here
  · rintro rfl
    rw [found] at here
    cases here
    exact apart rfl

theorem closeBucket_clean {m : Memory} {h : Handle} {b : Bucket} (found : m.find? h = some b) :
    m.closeBucket h true =
      { m.replace h { b with records := [] } with names := m.names.erase b.name } := by
  simp [closeBucket, found, replace]

theorem closeBucket_kept (m : Memory) (h : Handle) : m.closeBucket h false = m := by
  simp [closeBucket]

theorem Named.closeBucket {m : Memory} (named : m.Named) (h : Handle) (clean : Bool) :
    (m.closeBucket h clean).Named := by
  cases clean with
  | false => exact closeBucket_kept m h ▸ named
  | true =>
      cases found : m.find? h with
      | none =>
          have same : m.closeBucket h true = m := by simp [Memory.closeBucket, found]
          rw [same]
          exact named
      | some b =>
          have replaced : (m.replace h { b with records := [] }).Named := named.replace found rfl
          rw [closeBucket_clean found]
          refine ⟨fun name k held => replaced.named name k ?_, replaced.given⟩
          simp only [Table.get?_erase] at held
          split at held
          · cases held
          · exact held

theorem closeBucket_local {m : Memory} {h : Handle} {b : Bucket} (found : m.find? h = some b)
    (clean : Bool) : Local b.name m (m.closeBucket h clean) := by
  cases clean with
  | false => exact closeBucket_kept m h ▸ .refl _ m
  | true =>
      rw [closeBucket_clean found]
      refine ⟨fun other apart => ?_, (replace_local found _).buckets⟩
      simp [Table.get?_erase, apart]

theorem bucket_ok {m m' : Memory} {name : String} {h : Handle}
    (opened : m.bucket name = .ok (m', h)) :
    (m.names.get? name = some h ∧ m' = m) ∨
      (m.names.get? name = none ∧ h = m.opened ∧
        m' = { m.replace h { name } with
               names := m.names.insert name h, opened := m.opened + 1 }) := by
  simp only [bucket, bind_eq_ok] at opened
  obtain ⟨_, _, opened⟩ := opened
  split at opened
  · rename_i k held
    cases opened
    exact Or.inl ⟨held, rfl⟩
  · rename_i free
    cases opened
    exact Or.inr ⟨free, rfl, rfl⟩

theorem Named.bucket {m m' : Memory} (named : m.Named) {name : String} {h : Handle}
    (opened : m.bucket name = .ok (m', h)) :
    m'.Named ∧ Local name m m' ∧ m'.names.get? name = some h := by
  rcases bucket_ok opened with ⟨held, rfl⟩ | ⟨free, rfl, rfl⟩
  · exact ⟨named, .refl .., held⟩
  · have found : ∀ k, (m.replace m.opened { name }).find? k =
        if k = m.opened then some { name } else m.find? k := fun k => find?_insert ..
    refine ⟨⟨fun other k held => ?_, fun k b here => ?_⟩, ⟨fun other apart => ?_, ?_⟩, ?_⟩
    · change ∃ b, (m.replace m.opened { name }).find? k = some b ∧ b.name = other
      rw [found]
      simp only [Table.get?_insert] at held
      split at held
      · rename_i same
        cases held
        exact ⟨{ name }, if_pos rfl, same.symm⟩
      · obtain ⟨b, here, own⟩ := named.named other k held
        have below := named.given k b here
        exact ⟨b, by rw [if_neg (Nat.ne_of_lt below)]; exact here, own⟩
    · change (m.replace m.opened { name }).find? k = some b at here
      rw [found] at here
      split at here
      · rename_i new
        exact new ▸ Nat.lt_succ_self m.opened
      · exact Nat.lt_succ_of_lt (named.given k b here)
    · simp [Table.get?_insert, apart]
    · intro k b here _
      change (m.replace m.opened { name }).find? k = some b
      have below := named.given k b here
      rw [found, if_neg (Nat.ne_of_lt below)]
      exact here
    · simp [Table.get?_insert]

structure Spares (m m' : Memory) : Prop where
  names : ∀ name h, m.names.get? name = some h → m'.names.get? name = some h
  buckets : ∀ h b, m.find? h = some b → m'.find? h = some b

theorem Spares.refl (m : Memory) : m.Spares m := ⟨fun _ _ => id, fun _ _ => id⟩

theorem Spares.trans {m m' m'' : Memory} (first : m.Spares m') (second : m'.Spares m'') :
    m.Spares m'' :=
  ⟨fun name h => second.names name h ∘ first.names name h,
    fun h b => second.buckets h b ∘ first.buckets h b⟩

theorem Spares.named? {m m' : Memory} (spares : m.Spares m') {name : String} {b : Bucket}
    (held : m.named? name = some b) : m'.named? name = some b := by
  obtain ⟨h, named, found⟩ := Option.bind_eq_some_iff.mp held
  exact Option.bind_eq_some_iff.mpr ⟨h, spares.names name h named, spares.buckets h b found⟩

theorem Named.bucket_spares {m m' : Memory} (named : m.Named) {name : String} {h : Handle}
    (opened : m.bucket name = .ok (m', h)) : m.Spares m' := by
  rcases bucket_ok opened with ⟨_, rfl⟩ | ⟨free, rfl, rfl⟩
  · exact .refl m'
  · refine ⟨fun other k held => ?_, fun k b found => ?_⟩
    · have apart : other ≠ name := by
        rintro rfl
        exact nomatch free.symm.trans held
      exact (Table.get?_insert ..).trans (by rw [if_neg apart]; exact held)
    · have below := named.given k b found
      refine (find?_insert ..).trans ?_
      rw [if_neg (Nat.ne_of_lt below)]
      exact found

theorem Local.named? {m m' : Memory} {name other : String} (elsewhere : m.Local name m')
    (named : m.Named) (apart : other ≠ name) : m'.named? other = m.named? other := by
  unfold Memory.named?
  rw [elsewhere.names other apart]
  cases held : m.names.get? other with
  | none => rfl
  | some h =>
      obtain ⟨b, found, own⟩ := named.named other h held
      rw [Option.bind_some, Option.bind_some, found]
      exact elsewhere.buckets h b found (own ▸ apart)

end Storage.Memory

namespace StoredQueue

variable {τ : Type}

open Storage (Memory)

def Owns (s : StoredQueue τ) (m : Memory) (name : String) : Prop :=
  s.queue.closed = false ∧ m.names.get? name = some s.handle

theorem Owns.bucket {s : StoredQueue τ} {m : Memory} {name : String} (owns : s.Owns m name)
    (named : m.Named) : ∃ b, m.find? s.handle = some b ∧ b.name = name :=
  named.named name s.handle owns.2

theorem turns_owns {s : StoredQueue τ} {m : Memory} {name : String} (owns : s.Owns m name)
    (named : m.Named) (activities : List DurableQueue.Activity) :
    (s.turns m activities).memory.Named ∧ m.Local name (s.turns m activities).memory ∧
      (s.turns m activities).queue.Owns (s.turns m activities).memory name := by
  obtain ⟨b, found, own⟩ := owns.bucket named
  have kept := s.queue.performAll_name b activities
  have closed := (s.queue.performAll_tickets b activities).2
  simp only [turns, work, found]
  exact ⟨named.replace found kept, own ▸ Memory.replace_local found _, closed.trans owns.1, owns.2⟩

theorem turns_handle (s : StoredQueue τ) (m : Memory) (activities : List DurableQueue.Activity) :
    (s.turns m activities).queue.handle = s.handle := by
  unfold turns work
  split <;> rfl

theorem close_local {s : StoredQueue τ} {m : Memory} {name : String} (owns : s.Owns m name)
    (named : m.Named) (time : Int64) (clean : Bool) :
    (s.close m time clean).memory.Named ∧ m.Local name (s.close m time clean).memory ∧
      (clean = true → (s.close m time clean).memory.names.get? name = none) := by
  obtain ⟨b, found, own⟩ := owns.bucket named
  have kept := s.queue.close_name b time m.failing fun _ => m.failing
  simp only [close, owns.1, Bool.false_eq_true, if_false, stop, found]
  generalize (s.queue.close b time m.failing fun _ => m.failing).2.1 = b' at kept
  have stopped := named.replace found kept
  have here : (m.replace s.handle b').find? s.handle = some b' := by
    rw [Memory.find?_insert, if_pos rfl]
  refine ⟨stopped.closeBucket _ _, ?_, ?_⟩
  · have first := Memory.replace_local found b'
    have second := Memory.closeBucket_local here clean
    rw [kept] at second
    exact own ▸ first.trans second
  · rintro rfl
    rw [Memory.closeBucket_clean here]
    simp [Table.get?_erase, kept, own]

end StoredQueue

end MqttBroker
