import MqttBroker.Storage.Bucket

/-!
Buckets keep their records in the order of increasing offsets, below the next offset.
-/

namespace MqttBroker.Bucket

structure Ordered (b : Bucket) : Prop where
  increasing : b.records.Pairwise fun r s => r.offset < s.offset
  below : ∀ r ∈ b.records, r.offset < b.next

def since (b : Bucket) (next : Nat) : List Record :=
  b.records.filter fun r => next ≤ r.offset

theorem batch_offsets (b : Bucket) (time : Int64) (data : List Bytes) :
    (b.batch time data).map Record.offset = List.range' b.next data.length := by
  simp only [batch, List.map_map, Function.comp_def]
  exact List.map_fst_zip (by simp)

theorem batch_data (b : Bucket) (time : Int64) (data : List Bytes) :
    (b.batch time data).map Record.data = data := by
  simp only [batch, List.map_map, Function.comp_def]
  exact List.map_snd_zip (by simp)

theorem mem_batch {b : Bucket} {time : Int64} {data : List Bytes} {r : Record}
    (member : r ∈ b.batch time data) :
    b.next ≤ r.offset ∧ r.offset < b.next + data.length ∧ r.time = time := by
  have offset : r.offset ∈ (b.batch time data).map Record.offset := List.mem_map_of_mem member
  rw [batch_offsets, List.mem_range'_1] at offset
  refine ⟨offset.1, offset.2, ?_⟩
  simp only [batch, List.mem_map] at member
  obtain ⟨pair, _, rfl⟩ := member
  rfl

theorem batch_increasing (b : Bucket) (time : Int64) (data : List Bytes) :
    (b.batch time data).Pairwise fun r s => r.offset < s.offset := by
  have offsets : ((b.batch time data).map Record.offset).Pairwise (· < ·) := by
    rw [batch_offsets]
    exact List.pairwise_lt_range'
  exact List.pairwise_map.mp offsets

theorem Ordered.unique {b : Bucket} (ordered : b.Ordered) {r s : Record} (first : r ∈ b.records)
    (second : s ∈ b.records) (same : r.offset = s.offset) : r = s := by
  obtain ⟨i, inside, rfl⟩ := List.mem_iff_getElem.mp first
  obtain ⟨j, within, rfl⟩ := List.mem_iff_getElem.mp second
  have increasing := List.pairwise_iff_getElem.mp ordered.increasing
  rcases Nat.lt_trichotomy i j with less | equal | more
  · have := increasing i j inside within less
    omega
  · subst equal
    rfl
  · have := increasing j i within inside more
    omega

theorem Ordered.put {b : Bucket} (ordered : b.Ordered) (time : Int64) (data : List Bytes) :
    (b.put time data).1.Ordered := by
  constructor
  · refine List.pairwise_append.mpr
      ⟨ordered.increasing, batch_increasing b time data, fun r member s added => ?_⟩
    have below := ordered.below r member
    have above := (mem_batch added).1
    omega
  · intro r member
    simp only [Bucket.put, List.mem_append] at member ⊢
    rcases member with old | added
    · have below := ordered.below r old
      omega
    · exact (mem_batch added).2.1

theorem Ordered.delete {b : Bucket} (ordered : b.Ordered) (gone : Record → Bool) :
    (b.delete gone).1.Ordered := by
  constructor
  · exact ordered.increasing.filter _
  · intro r member
    exact ordered.below r (List.mem_filter.mp member).1

theorem mem_delete {b : Bucket} {gone : Record → Bool} {r : Record} :
    r ∈ (b.delete gone).1.records ↔ r ∈ b.records ∧ gone r = false := by
  simp [Bucket.delete, List.mem_filter]

theorem mem_deleteBefore {b : Bucket} {limit : Int64} {r : Record} :
    r ∈ (b.deleteBefore limit).1.records ↔ r ∈ b.records ∧ ¬r.time < limit := by
  rw [deleteBefore, mem_delete]
  simp

theorem since_next {b : Bucket} (ordered : b.Ordered) : b.since b.next = [] := by
  apply List.filter_eq_nil_iff.mpr
  intro r member
  have below := ordered.below r member
  simpa using below

theorem since_put {b : Bucket} (ordered : b.Ordered) (time : Int64) (data : List Bytes) :
    (b.put time data).1.since b.next = b.batch time data := by
  have kept : (b.batch time data).filter (fun r => b.next ≤ r.offset) = b.batch time data := by
    apply List.filter_eq_self.mpr
    intro r member
    simpa using (mem_batch member).1
  have none := since_next ordered
  simp only [since, Bucket.put, List.filter_append] at none ⊢
  rw [none, kept, List.nil_append]

structure Follows (b' b : Bucket) : Prop where
  ordered : b'.Ordered
  next : b.next ≤ b'.next
  old : ∀ r ∈ b'.records, r.offset < b.next → r ∈ b.records

theorem Follows.refl {b : Bucket} (ordered : b.Ordered) : b.Follows b :=
  ⟨ordered, Nat.le_refl _, fun _ member _ => member⟩

theorem Follows.trans {b b' b'' : Bucket} (later : b''.Follows b') (earlier : b'.Follows b) :
    b''.Follows b where
  ordered := later.ordered
  next := Nat.le_trans earlier.next later.next
  old := by
    intro r member below
    exact earlier.old r (later.old r member (Nat.lt_of_lt_of_le below earlier.next)) below

theorem Follows.put {b : Bucket} (ordered : b.Ordered) (time : Int64) (data : List Bytes) :
    (b.put time data).1.Follows b where
  ordered := ordered.put time data
  next := Nat.le_add_right ..
  old := by
    intro r member below
    rcases List.mem_append.mp member with old | added
    · exact old
    · have := (mem_batch added).1
      omega

theorem Follows.delete {b : Bucket} (ordered : b.Ordered) (gone : Record → Bool) :
    (b.delete gone).1.Follows b :=
  ⟨ordered.delete gone, Nat.le_refl _, fun _ member _ => (List.mem_filter.mp member).1⟩

/-- The offset was given, and the record that has it, if there still is one, satisfies `P`. -/
def Knows (b : Bucket) (offset : Nat) (P : Record → Prop) : Prop :=
  offset < b.next ∧ ∀ r ∈ b.records, r.offset = offset → P r

theorem Ordered.knows {b : Bucket} (ordered : b.Ordered) {r : Record} (member : r ∈ b.records)
    {P : Record → Prop} (known : P r) : b.Knows r.offset P :=
  ⟨ordered.below r member, fun _ other same => ordered.unique other member same ▸ known⟩

/-- What is known about an offset stays known, since offsets are not given twice. -/
theorem Knows.mono {b b' : Bucket} {offset : Nat} {P Q : Record → Prop} (known : b.Knows offset P)
    (follows : b'.Follows b) (weaker : ∀ r ∈ b.records, P r → Q r) : b'.Knows offset Q := by
  refine ⟨Nat.lt_of_lt_of_le known.1 follows.next, ?_⟩
  intro r member same
  have old := follows.old r member (same ▸ known.1)
  exact weaker r old (known.2 r old same)

theorem mem_get {b : Bucket} {offset limit : Nat} {r : Record} (member : r ∈ b.get offset limit) :
    r ∈ b.records ∧ offset ≤ r.offset := by
  have found := List.mem_filter.mp (List.mem_of_mem_take member)
  exact ⟨found.1, by simpa using found.2⟩

theorem get_increasing {b : Bucket} (ordered : b.Ordered) (offset limit : Nat) :
    (b.get offset limit).Pairwise fun r s => r.offset < s.offset :=
  (ordered.increasing.filter _).take

theorem get_complete {b : Bucket} (ordered : b.Ordered) {offset limit : Nat} {r s : Record}
    (member : r ∈ b.records) (from_ : offset ≤ r.offset) (got : s ∈ b.get offset limit)
    (before : r.offset ≤ s.offset) : r ∈ b.get offset limit := by
  have unread : r ∈ b.records.filter fun r => offset ≤ r.offset :=
    List.mem_filter.mpr ⟨member, by simpa using from_⟩
  have increasing := ordered.increasing.filter fun r => offset ≤ r.offset
  rw [← List.take_append_drop limit (b.records.filter _)] at unread increasing
  rcases List.mem_append.mp unread with taken | dropped
  · exact taken
  · have := (List.pairwise_append.mp increasing).2.2 s got r dropped
    omega

theorem get_nil {b : Bucket} {offset limit : Nat} (some : 0 < limit)
    (none : b.get offset limit = []) : ∀ r ∈ b.records, r.offset < offset := by
  intro r member
  rcases List.take_eq_nil_iff.mp none with zero | empty
  · omega
  · have := List.filter_eq_nil_iff.mp empty r member
    simpa using this

theorem get_append {b : Bucket} (ordered : b.Ordered) {offset limit : Nat} {last : Record}
    {first : List Record} (got : b.get offset limit = first ++ [last]) :
    b.records.filter (fun r => offset ≤ r.offset) =
      b.get offset limit ++ b.records.filter fun r => last.offset + 1 ≤ r.offset := by
  have increasing := ordered.increasing.filter fun r => offset ≤ r.offset
  have split := List.take_append_drop limit (b.records.filter fun r => offset ≤ r.offset)
  have lastGot : last ∈ b.get offset limit := by simp [got]
  have above := (mem_get lastGot).2
  have later : b.records.filter (fun r => last.offset + 1 ≤ r.offset) =
      (b.records.filter fun r => offset ≤ r.offset).filter
        fun r => last.offset + 1 ≤ r.offset := by
    rw [List.filter_filter]
    apply List.filter_congr
    intro r _
    by_cases after : last.offset + 1 ≤ r.offset
    · have : offset ≤ r.offset := by omega
      simp [after, this]
    · simp [after]
  rw [later, ← split, List.filter_append]
  rw [← split] at increasing
  obtain ⟨taken, _, apart⟩ := List.pairwise_append.mp increasing
  have none : ((b.records.filter fun r => offset ≤ r.offset).take limit).filter
      (fun r => last.offset + 1 ≤ r.offset) = [] := by
    apply List.filter_eq_nil_iff.mpr
    intro r member
    have upTo : r.offset ≤ last.offset := by
      change r ∈ b.get offset limit at member
      rw [got] at member
      have taken : (b.get offset limit).Pairwise fun r s => r.offset < s.offset := taken
      rw [got] at taken
      rcases List.mem_append.mp member with before | same
      · have := (List.pairwise_append.mp taken).2.2 r before last (by simp)
        omega
      · simp_all
    simpa using Nat.lt_succ_of_le upTo
  have all : ((b.records.filter fun r => offset ≤ r.offset).drop limit).filter
      (fun r => last.offset + 1 ≤ r.offset) =
      (b.records.filter fun r => offset ≤ r.offset).drop limit := by
    apply List.filter_eq_self.mpr
    intro r member
    simpa using Nat.succ_le_of_lt (apart last lastGot r member)
  rw [none, all, List.nil_append]
  rfl

end MqttBroker.Bucket
