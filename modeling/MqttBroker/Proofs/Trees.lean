import MqttBroker.Proofs.Bucket
import MqttBroker.Proofs.KeyOrder
import MqttBroker.Proofs.Success

/-!
The tree that holds the records of a bucket. What is done to the tree is what is done to the
records.
-/

namespace MqttBroker

namespace Storage.Tree

def entry (r : Record) : Key × Bytes := (.ofOffset r.offset, value r.time r.data)

def ofRecords (records : List Record) : Tree := records.map entry

theorem record_entry (r : Record) : record (entry r) = .ok r := by
  simp only [record, entry, Key.offset_ofOffset, time_value, drop_value]
  rfl

theorem mapM_record (records : List Record) : (ofRecords records).mapM record = .ok records := by
  rw [ofRecords, List.mapM_map]
  exact (mapM_eq_pure fun r _ => record_entry r).trans (congrArg Except.ok (List.map_id records))

variable {records : List Record}

theorem compare_entry (r s : Record) : compare (entry r).1 (entry s).1 = compare r.offset s.offset :=
  Key.compare_ofOffset ..

theorem increasing_ofRecords (increasing : records.Pairwise fun r s => r.offset < s.offset) :
    (ofRecords records).Increasing := by
  refine List.pairwise_map.mpr (increasing.imp fun {r s} below => ?_)
  rw [compare_entry]
  exact Nat.compare_eq_lt.mpr below

theorem since_ofRecords (records : List Record) (start : Nat) :
    (ofRecords records).since (.ofOffset start) =
      ofRecords (records.filter fun r => start ≤ r.offset) := by
  unfold since ofRecords
  rw [List.filter_map]
  congr 1
  refine List.filter_congr fun r _ => ?_
  rw [Function.comp_apply, entry, Key.compare_ofOffset, Bool.eq_iff_iff, decide_eq_true_eq]
  exact Nat.isLE_compare

theorem below_ofRecords (records : List Record) (stop : Nat) :
    (ofRecords records).below (.ofOffset stop) =
      ofRecords (records.filter fun r => r.offset < stop) := by
  unfold below ofRecords
  rw [List.filter_map]
  congr 1
  refine List.filter_congr fun r _ => ?_
  rw [Function.comp_apply, entry, Key.compare_ofOffset, Bool.eq_iff_iff, decide_eq_true_eq]
  rw [Ordering.isLT_iff_eq_lt, Nat.compare_eq_lt]

theorem insertAll_above {t : Tree} {entries : List (Key × Bytes)}
    (increasing : Table.Increasing (t ++ entries)) : t.insertAll entries = t ++ entries := by
  induction entries generalizing t with
  | nil => exact (List.append_nil t).symm
  | cons e rest ih =>
      have grown : t ++ e :: rest = (t ++ [e]) ++ rest := by simp
      rw [insertAll, List.foldl_cons, increasing.insert_next, grown]
      exact ih (grown ▸ increasing)

theorem insertAll_batch {b : Bucket} (ordered : b.Ordered) (time : Int64) (batch : List Bytes) :
    (ofRecords b.records).insertAll (((List.range' b.next batch.length).zip batch).map
      fun e => (Key.ofOffset e.1, value time e.2)) = ofRecords (b.put time batch).1.records := by
  have entries : ((List.range' b.next batch.length).zip batch).map
      (fun e => (Key.ofOffset e.1, value time e.2)) = ofRecords (b.batch time batch) := by
    rw [ofRecords, Bucket.batch, List.map_map]
    rfl
  have grown : (b.put time batch).1.records = b.records ++ b.batch time batch := rfl
  have appended : ofRecords (b.put time batch).1.records =
      ofRecords b.records ++ ofRecords (b.batch time batch) := by
    rw [grown, ofRecords, List.map_append]
    rfl
  have whole := increasing_ofRecords (ordered.put time batch).increasing
  rw [entries, appended, insertAll_above (appended ▸ whole)]

theorem eraseAll_eq (t : Tree) (keys : List Key) :
    t.eraseAll keys = t.filter fun e => !keys.contains e.1 := by
  induction keys generalizing t with
  | nil => exact (List.filter_eq_self.mpr fun _ _ => rfl).symm
  | cons key rest ih =>
      rw [eraseAll, List.foldl_cons]
      refine (ih _).trans ?_
      rw [Table.erase, List.filter_filter]
      refine List.filter_congr fun e _ => ?_
      rw [List.contains_cons, Bool.not_or, Bool.and_comm]
      congr 1
      rw [Bool.eq_iff_iff]
      simp

theorem eraseAll_ofRecords {b : Bucket} (ordered : b.Ordered) (gone : Record → Bool) :
    (ofRecords b.records).eraseAll (ofRecords (b.records.filter gone)).keys =
      ofRecords (b.delete gone).1.records := by
  rw [eraseAll_eq, ofRecords, ofRecords, Bucket.delete, List.filter_map]
  congr 1
  refine List.filter_congr fun r member => congrArg not ?_
  rw [Bool.eq_iff_iff, List.contains_iff_mem]
  constructor
  · intro listed
    obtain ⟨e, removed, same⟩ := List.mem_map.mp listed
    obtain ⟨s, chosen, rfl⟩ := List.mem_map.mp removed
    obtain ⟨other, marked⟩ := List.mem_filter.mp chosen
    have equal := compare_entry s r
    rw [same, Std.ReflOrd.compare_self] at equal
    rwa [← ordered.unique other member (Nat.compare_eq_eq.mp equal.symm)]
  · intro marked
    exact List.mem_map_of_mem (List.mem_map_of_mem (List.mem_filter.mpr ⟨member, marked⟩))

theorem keysBefore_ofRecords (records : List Record) (limit : Int64) :
    (ofRecords records).keysBefore limit =
      .ok (ofRecords (records.filter fun r => r.time < limit)).keys := by
  have times : (ofRecords records).mapM (fun e => time e.2) = .ok (records.map Record.time) := by
    rw [ofRecords, List.mapM_map]
    exact mapM_eq_pure fun r _ => time_value r.time r.data
  have chosen : (((ofRecords records).keys.zip (records.map Record.time)).filter
      fun e => e.2 < limit).map Prod.fst =
        (ofRecords (records.filter fun r => r.time < limit)).keys := by
    rw [Table.keys, ofRecords, List.map_map, List.zip_map', List.filter_map, List.map_map, Table.keys,
      ofRecords, List.map_map]
    rfl
  rw [keysBefore, times]
  exact congrArg Except.ok chosen

theorem afterLast_ofRecords {b : Bucket} (ordered : b.Ordered) :
    ∃ after, (ofRecords b.records).afterLast = .ok after ∧ after ≤ max 1 b.next := by
  rw [afterLast, ofRecords, List.getLast?_map]
  cases last : b.records.getLast? with
  | none => exact ⟨1, rfl, Nat.le_max_left ..⟩
  | some r =>
      have below := ordered.below r (List.mem_of_getLast? last)
      refine ⟨r.offset + 1, ?_, by omega⟩
      rw [Option.map_some, entry]
      simp only [Key.offset_ofOffset]
      rfl

end Storage.Tree

end MqttBroker
