import MqttBroker.Proofs.StorageClients
import MqttBroker.Proofs.Trees

/-!
What a storage on disk holds. The records of a bucket are in a tree of its own, and its next offset
is the one written down, or 1. Its users find both in what they hold.
-/

namespace MqttBroker

theorem Bucket.deleteRange_none (b : Bucket) {start stop : Nat} (none : stop ≤ start) :
    b.deleteRange start stop = (b, 0) := by
  have spared : ∀ r ∈ b.records, (decide (start ≤ r.offset) && decide (r.offset < stop)) = false := by
    intro r _
    rw [Bool.and_eq_false_iff, decide_eq_false_iff_not, decide_eq_false_iff_not]
    omega
  have kept : b.records.filter (fun r => !(decide (start ≤ r.offset) && decide (r.offset < stop))) =
      b.records := by
    refine List.filter_eq_self.mpr fun r member => ?_
    rw [spared r member]
    rfl
  have counted : b.records.countP (fun r => decide (start ≤ r.offset) && decide (r.offset < stop)) =
      0 := by
    refine List.countP_eq_zero.mpr fun r member => ?_
    rw [spared r member]
    exact Bool.false_ne_true
  rw [deleteRange, delete, kept, counted]

namespace Storage.Disk

/-- A tree has the records of a bucket, and its next offset is the one written down. -/
structure Stored (d : Disk) (name : String) (b : Bucket) (tree : Nat) : Prop where
  grown : d.trees.get? name = some tree
  records : d.contents.get? tree = some (Tree.ofRecords b.records)
  saved : d.saved name = .ok b.next

def Fits (d : Disk) (name : String) : Option Bucket → Prop
  | none => d.trees.get? name = none ∧ d.saved name = .ok 1
  | some b => ∃ tree, d.Stored name b tree

structure Holds (d : Disk) (c : Contents) (current : String → Option Handle) : Prop where
  closed : d.closed = c.closed
  entries : d.entries = Table.renamed utf8 c.entries
  fits : ∀ name, d.Fits name (c.buckets name)
  apart : ∀ name other tree, d.trees.get? name = some tree → d.trees.get? other = some tree →
    other = name
  created : ∀ name tree, d.trees.get? name = some tree → tree < d.created
  names : d.closed = false → ∀ name, d.names.get? name = current name
  opened : ∀ name h, current name = some h → ∃ b tree, c.buckets name = some b ∧
    d.trees.get? name = some tree ∧ d.find? h = some { name, tree, next := b.next }
  given : ∀ h b, d.find? h = some b → h < d.opened

theorem holds_empty : Holds {} {} fun _ => none where
  closed := rfl
  entries := rfl
  fits _ := ⟨rfl, rfl⟩
  apart _ _ _ held := nomatch held
  created _ _ held := nomatch held
  names _ _ := rfl
  opened _ _ held := nomatch held
  given _ _ found := nomatch found

variable {d d' : Disk} {c : Contents} {current : String → Option Handle} {name : String} {h : Handle}
  {b : Bucket}

theorem saved_eq {other : String} (same : d'.offsets.get? (utf8 other) = d.offsets.get? (utf8 other)) :
    d'.saved other = d.saved other := by
  rw [saved, saved, same]

theorem Holds.checkOpen (holds : d.Holds c current) (unlocked : c.closed = false) :
    d.checkOpen = .ok () := by
  rw [Disk.checkOpen, holds.closed, unlocked]
  rfl

theorem Fits.stored (fits : d.Fits name (some b)) : ∃ tree, d.Stored name b tree := fits

theorem Fits.kept {b : Option Bucket} (fits : d.Fits name b)
    (trees : d'.trees.get? name = d.trees.get? name)
    (contents : ∀ tree, d.trees.get? name = some tree →
      d'.contents.get? tree = d.contents.get? tree)
    (saved : d'.saved name = d.saved name) : d'.Fits name b := by
  cases b with
  | none => exact ⟨trees.trans fits.1, saved.trans fits.2⟩
  | some b =>
      obtain ⟨tree, stored⟩ := fits.stored
      exact ⟨tree, trees.trans stored.grown, (contents tree stored.grown).trans stored.records,
        saved.trans stored.saved⟩

theorem Holds.stored (holds : d.Holds c current) (here : c.buckets name = some b) :
    ∃ tree, d.Stored name b tree := by
  have fits := holds.fits name
  rwa [here] at fits

theorem Holds.absent (holds : d.Holds c current) (missing : c.buckets name = none) :
    d.trees.get? name = none ∧ d.saved name = .ok 1 := by
  have fits := holds.fits name
  rwa [missing] at fits

theorem Holds.open_stored (holds : d.Holds c current) (held : current name = some h)
    (here : c.buckets name = some b) :
    ∃ tree, d.Stored name b tree ∧ d.find? h = some { name, tree, next := b.next } := by
  obtain ⟨b₀, tree, here₀, grown, found⟩ := holds.opened name h held
  obtain rfl := Option.some.inj (here.symm.trans here₀)
  obtain ⟨tree₀, stored⟩ := holds.stored here
  obtain rfl := Option.some.inj (grown.symm.trans stored.grown)
  exact ⟨tree, stored, found⟩

theorem tree?_eq {tree : Nat} (stored : d.Stored name b tree)
    (found : d.find? h = some { name, tree, next := b.next }) :
    d.tree? h = some ({ name, tree, next := b.next }, Tree.ofRecords b.records) := by
  unfold tree?
  rw [found, Option.bind_eq_bind, Option.bind_some, stored.records]
  rfl

/-! A bucket that is read and written -/

/-- Only the one tree, the next offset of its bucket and what its users hold have changed. -/
structure Turned (d d' : Disk) (name : String) (tree : Nat) (h : Handle) : Prop where
  closed : d'.closed = d.closed
  entries : d'.entries = d.entries
  names : d'.names = d.names
  trees : d'.trees = d.trees
  created : d'.created = d.created
  opened : d'.opened = d.opened
  contents : ∀ other, other ≠ tree → d'.contents.get? other = d.contents.get? other
  saved : ∀ other, other ≠ name → d'.saved other = d.saved other
  buckets : ∀ k, k ≠ h → d'.find? k = d.find? k

theorem Holds.turned (holds : d.Holds c current) {tree : Nat} (held : current name = some h)
    (turned : d.Turned d' name tree h) (stored : d'.Stored name b tree)
    (found : d'.find? h = some { name, tree, next := b.next }) :
    d'.Holds (c.set name (some b)) current where
  closed := turned.closed.trans holds.closed
  entries := turned.entries.trans holds.entries
  fits := by
    intro other
    by_cases same : other = name
    · rw [same, Contents.set_here]
      exact ⟨tree, stored⟩
    · have grown : d.trees.get? name = some tree := turned.trees ▸ stored.grown
      rw [Contents.set_elsewhere _ _ same]
      refine (holds.fits other).kept (by rw [turned.trees]) ?_ (turned.saved other same)
      intro tree' grown'
      refine turned.contents tree' ?_
      rintro rfl
      exact same (holds.apart name other tree' grown grown')
  apart := turned.trees ▸ holds.apart
  created := turned.trees ▸ turned.created ▸ holds.created
  names := turned.closed ▸ turned.names ▸ holds.names
  opened := by
    intro other k held'
    by_cases same : other = name
    · subst same
      obtain rfl := Option.some.inj (held.symm.trans held')
      exact ⟨b, tree, Contents.set_here .., stored.grown, found⟩
    · obtain ⟨b', tree', here, grown, found'⟩ := holds.opened other k held'
      refine ⟨b', tree', ?_, ?_, ?_⟩
      · rw [Contents.set_elsewhere _ _ same]
        exact here
      · rw [turned.trees]
        exact grown
      · rw [turned.buckets]
        · exact found'
        · rintro rfl
          obtain ⟨b₀, _, _, _, found₀⟩ := holds.opened name k held
          have equal := Option.some.inj (found'.symm.trans found₀)
          exact same (congrArg DiskBucket.name equal)
  given := by
    intro k b' found'
    rw [turned.opened]
    by_cases same : k = h
    · obtain ⟨_, _, _, _, found₀⟩ := holds.opened name h held
      exact same ▸ holds.given h _ found₀
    · rw [turned.buckets k same] at found'
      exact holds.given k b' found'

def appended (d : Disk) (name : String) (tree : Nat) (h : Handle) (b : Bucket) (time : Int64)
    (batch : List Bytes) : Disk :=
  { d with
    contents := d.contents.modify tree fun t =>
      t.insertAll (((List.range' b.next batch.length).zip batch).map
        fun e => (Key.ofOffset e.1, Tree.value time e.2)),
    offsets := d.offsets.insert (utf8 name) (.ofOffset (b.next + batch.length)),
    buckets := d.buckets.insert h { name, tree, next := b.next + batch.length } }

theorem put_eq {tree : Nat} (stored : d.Stored name b tree)
    (found : d.find? h = some { name, tree, next := b.next }) (time : Int64) (batch : List Bytes) :
    d.put h time batch = (d.appended name tree h b time batch, .ok (b.put time batch).2) := by
  have there : d.contents.contains tree = true := by
    rw [Table.contains, stored.records]
    rfl
  simp only [Disk.put, found, there, Bool.true_or, if_true]
  rfl

theorem appended_turned (d : Disk) (name : String) (tree : Nat) (h : Handle) (b : Bucket)
    (time : Int64) (batch : List Bytes) :
    d.Turned (d.appended name tree h b time batch) name tree h where
  closed := rfl
  entries := rfl
  names := rfl
  trees := rfl
  created := rfl
  opened := rfl
  contents other apart := by rw [appended, Table.get?_modify, if_neg apart]
  saved other apart := by
    refine saved_eq ((Table.get?_insert ..).trans (if_neg ?_))
    exact fun same => apart (utf8_injective same)
  buckets k apart := (Table.get?_insert ..).trans (if_neg apart)

theorem appended_stored {tree : Nat} (stored : d.Stored name b tree) (ordered : b.Ordered)
    (h : Handle) (time : Int64) (batch : List Bytes) :
    (d.appended name tree h b time batch).Stored name (b.put time batch).1 tree where
  grown := stored.grown
  records := by
    rw [appended, Table.get?_modify, if_pos rfl, stored.records, Option.map_some,
      Tree.insertAll_batch ordered]
  saved := by
    have written : (d.appended name tree h b time batch).offsets.get? (utf8 name) =
        some (.ofOffset (b.next + batch.length)) := (Table.get?_insert ..).trans (if_pos rfl)
    simp only [saved, written, Key.offset_ofOffset]
    rfl

theorem Holds.put (holds : d.Holds c current) (held : current name = some h)
    (here : c.buckets name = some b) (ordered : b.Ordered) (time : Int64) (batch : List Bytes) :
    ∃ d', d.put h time batch = (d', .ok (b.put time batch).2) ∧
      d'.Holds (c.set name (some (b.put time batch).1)) current := by
  obtain ⟨tree, stored, found⟩ := holds.open_stored held here
  refine ⟨_, put_eq stored found time batch, ?_⟩
  refine holds.turned held (appended_turned ..) (appended_stored stored ordered h time batch) ?_
  exact (Table.get?_insert ..).trans (if_pos rfl)

theorem Holds.remove (holds : d.Holds c current) (held : current name = some h)
    (ordered : b.Ordered) (gone : Record → Bool) {tree : Nat}
    (stored : d.Stored name b tree) (found : d.find? h = some { name, tree, next := b.next }) :
    ∃ d', d.removeKeys tree (Tree.ofRecords (b.records.filter gone)).keys = (d', (b.delete gone).2) ∧
      d'.Holds (c.set name (some (b.delete gone).1)) current := by
  have counted : (Tree.ofRecords (b.records.filter gone)).keys.length = (b.delete gone).2 := by
    rw [Table.keys, Tree.ofRecords, List.length_map, List.length_map,
      ← List.countP_eq_length_filter]
    rfl
  refine ⟨_, congrArg (Prod.mk _) counted, holds.turned held ?_ ?_ found⟩
  · have contents : ∀ other, other ≠ tree →
        (d.removeKeys tree (Tree.ofRecords (b.records.filter gone)).keys).1.contents.get? other =
          d.contents.get? other := by
      intro other apart
      rw [removeKeys, Table.get?_modify, if_neg apart]
    exact ⟨rfl, rfl, rfl, rfl, rfl, rfl, contents, fun _ _ => rfl, fun _ _ => rfl⟩
  · refine ⟨stored.grown, ?_, stored.saved⟩
    rw [Table.get?_modify, if_pos rfl, stored.records, Option.map_some,
      Tree.eraseAll_ofRecords ordered]

theorem Holds.deleteRange (holds : d.Holds c current) (held : current name = some h)
    (here : c.buckets name = some b) (ordered : b.Ordered) (start stop : Nat) :
    ∃ d', d.deleteRange h start stop = .ok (d', (b.deleteRange start stop).2) ∧
      d'.Holds (c.set name (some (b.deleteRange start stop).1)) current := by
  by_cases none : stop ≤ start
  · rw [Bucket.deleteRange_none b none]
    refine ⟨d, ?_, (Contents.set_same here).symm ▸ holds⟩
    rw [Disk.deleteRange, if_pos none]
  · obtain ⟨tree, stored, found⟩ := holds.open_stored held here
    obtain ⟨d', done, after⟩ := holds.remove held ordered
      (fun r => start ≤ r.offset && r.offset < stop) stored found
    refine ⟨d', ?_, after⟩
    have chosen : ((Tree.ofRecords b.records).since (.ofOffset start)).below (.ofOffset stop) =
        Tree.ofRecords (b.records.filter fun r => start ≤ r.offset && r.offset < stop) := by
      rw [Tree.since_ofRecords, Tree.below_ofRecords, List.filter_filter]
      congr 1
      exact List.filter_congr fun r _ => Bool.and_comm ..
    simp only [Disk.deleteRange, if_neg none, tree?_eq stored found, chosen, done]
    rfl

theorem Holds.deleteBefore (holds : d.Holds c current) (held : current name = some h)
    (here : c.buckets name = some b) (ordered : b.Ordered) (time : Int64) :
    ∃ d', d.deleteBefore h time = .ok (d', (b.deleteBefore time).2) ∧
      d'.Holds (c.set name (some (b.deleteBefore time).1)) current := by
  obtain ⟨tree, stored, found⟩ := holds.open_stored held here
  obtain ⟨d', done, after⟩ := holds.remove held ordered (fun r => r.time < time) stored found
  refine ⟨d', ?_, after⟩
  simp only [Disk.deleteBefore, tree?_eq stored found, Tree.keysBefore_ofRecords, Except.map, done]
  rfl

theorem Holds.get (holds : d.Holds c current) (held : current name = some h)
    (here : c.buckets name = some b) (offset limit : Nat) :
    d.get h offset limit = .ok (b.get offset limit) := by
  obtain ⟨tree, stored, found⟩ := holds.open_stored held here
  have read : ((Tree.ofRecords b.records).since (.ofOffset offset)).take limit =
      Tree.ofRecords (b.get offset limit) := by
    rw [Tree.since_ofRecords, Tree.ofRecords, ← List.map_take]
    rfl
  simp only [Disk.get, tree?_eq stored found, read, Tree.mapM_record]

theorem Holds.size (holds : d.Holds c current) (held : current name = some h)
    (here : c.buckets name = some b) : d.size h = .ok b.records.length := by
  obtain ⟨tree, stored, found⟩ := holds.open_stored held here
  simp only [Disk.size, tree?_eq stored found, Tree.ofRecords, List.length_map]

/-! A bucket that is dropped -/

theorem closeBucket_clean {tree : Nat} (grown : d.trees.get? name = some tree)
    {k : Nat} (found : d.find? h = some { name, tree, next := k }) :
    d.closeBucket h true =
      { d with offsets := d.offsets.erase (utf8 name), names := d.names.erase name,
               contents := d.contents.erase tree, trees := d.trees.erase name } := by
  simp only [closeBucket, found, grown]

theorem Holds.drop (holds : d.Holds c current) (held : current name = some h) :
    (d.closeBucket h true).Holds (c.set name none)
      fun other => if other = name then none else current other := by
  obtain ⟨b, tree, here, grown, found⟩ := holds.opened name h held
  have old : ∀ {other tree}, (d.trees.erase name).get? other = some tree →
      other ≠ name ∧ d.trees.get? other = some tree := by
    intro other tree' left
    rw [Table.get?_erase] at left
    split at left
    · cases left
    · exact ⟨‹_›, left⟩
  have saved : ∀ other, other ≠ name →
      (d.offsets.erase (utf8 name)).get? (utf8 other) = d.offsets.get? (utf8 other) := by
    intro other apart
    rw [Table.get?_erase, if_neg fun same => apart (utf8_injective same)]
  rw [closeBucket_clean grown found]
  constructor
  case closed => exact holds.closed
  case entries => exact holds.entries
  case fits =>
    intro other
    by_cases same : other = name
    · have unsaved : (d.offsets.erase (utf8 name)).get? (utf8 name) = none := by
        rw [Table.get?_erase, if_pos rfl]
      rw [same, Contents.set_here]
      refine ⟨?_, by simp only [Disk.saved, unsaved]⟩
      rw [Table.get?_erase, if_pos rfl]
    · rw [Contents.set_elsewhere _ _ same]
      refine (holds.fits other).kept ?_ ?_ (saved_eq (saved other same))
      · rw [Table.get?_erase, if_neg same]
      · intro tree' grown'
        rw [Table.get?_erase, if_neg]
        rintro rfl
        exact same (holds.apart name other tree' grown grown')
  case apart =>
    intro one other tree' first second
    exact holds.apart one other tree' (old first).2 (old second).2
  case created =>
    intro other tree' left
    exact holds.created other tree' (old left).2
  case names =>
    intro unlocked other
    rw [Table.get?_erase, holds.names unlocked]
  case opened =>
    intro other k held'
    split at held'
    · cases held'
    · rename_i apart
      rw [Contents.set_elsewhere _ _ apart, Table.get?_erase, if_neg apart]
      exact holds.opened other k held'
  case given => exact holds.given

theorem Holds.perform (holds : d.Holds c current) (held : current name = some h)
    (here : c.buckets name = some b) (ordered : b.Ordered) (r : BucketRequest) :
    ∃ d', (Storage.disk d).perform h r = (.disk d', (b.perform r).2) ∧
      d'.Holds (c.set name (b.perform r).1) (r.leaves name current) := by
  have same := Contents.set_same here
  cases r with
  | put time batch =>
      obtain ⟨d', done, after⟩ := holds.put held here ordered time batch
      refine ⟨d', ?_, after⟩
      simp only [Storage.perform, Storage.put, done, Answer.of, Bucket.perform]
  | get offset limit =>
      refine ⟨d, ?_, same.symm ▸ holds⟩
      simp only [Storage.perform, Storage.get, holds.get held here, Answer.of, Bucket.perform]
  | deleteRange start stop =>
      obtain ⟨d', done, after⟩ := holds.deleteRange held here ordered start stop
      refine ⟨d', ?_, after⟩
      simp only [Storage.perform, Storage.deleteRange, done, Except.map, settle, Bucket.perform]
  | deleteBelow stop =>
      obtain ⟨d', done, after⟩ := holds.deleteRange held here ordered 0 stop
      refine ⟨d', ?_, after⟩
      simp only [Storage.perform, Storage.deleteBelow, Storage.deleteRange, done, Except.map, settle,
        Bucket.perform]
  | deleteBefore time =>
      obtain ⟨d', done, after⟩ := holds.deleteBefore held here ordered time
      refine ⟨d', ?_, after⟩
      simp only [Storage.perform, Storage.deleteBefore, done, Except.map, settle, Bucket.perform]
  | size =>
      refine ⟨d, ?_, same.symm ▸ holds⟩
      simp only [Storage.perform, Storage.size, holds.size held here, Answer.of, Bucket.perform]
  | close clean =>
      cases clean with
      | false => exact ⟨d, rfl, same.symm ▸ holds⟩
      | true => exact ⟨d.closeBucket h true, rfl, holds.drop held⟩

/-! A bucket that is opened -/

def planted (d : Disk) (name : String) : Disk :=
  { d with trees := d.trees.insert name d.created, contents := d.contents.insert d.created [],
           created := d.created + 1 }

theorem planted_stored (unsaved : d.saved name = .ok 1) :
    (d.planted name).Stored name { name } d.created where
  grown := by rw [planted, Table.get?_insert, if_pos rfl]
  records := by
    rw [planted, Table.get?_insert, if_pos rfl]
    rfl
  saved := unsaved

theorem Holds.planted (holds : d.Holds c current) (missing : c.buckets name = none) :
    (d.planted name).Holds (c.set name (some { name })) current := by
  have trees : ∀ other, (d.planted name).trees.get? other =
      if other = name then some d.created else d.trees.get? other :=
    fun other => Table.get?_insert ..
  constructor
  case closed => exact holds.closed
  case entries => exact holds.entries
  case fits =>
    intro other
    by_cases same : other = name
    · rw [same, Contents.set_here]
      exact ⟨d.created, planted_stored (holds.absent missing).2⟩
    · rw [Contents.set_elsewhere _ _ same]
      refine (holds.fits other).kept (by rw [trees, if_neg same]) ?_ rfl
      intro tree grown
      have below := holds.created other tree grown
      rw [Disk.planted, Table.get?_insert, if_neg (Nat.ne_of_lt below)]
  case apart =>
    intro one other tree first second
    rw [trees] at first second
    split at first <;> split at second
    · rename_i same same'
      rw [same, same']
    · obtain rfl := Option.some.inj first
      exact absurd (holds.created other _ second) (Nat.lt_irrefl _)
    · obtain rfl := Option.some.inj second
      exact absurd (holds.created one _ first) (Nat.lt_irrefl _)
    · exact holds.apart one other tree first second
  case created =>
    intro other tree grown
    rw [trees] at grown
    split at grown
    · obtain rfl := Option.some.inj grown
      exact Nat.lt_succ_self _
    · exact Nat.lt_succ_of_lt (holds.created other tree grown)
  case names => exact holds.names
  case opened =>
    intro other k held
    obtain ⟨b, tree, here, grown, found⟩ := holds.opened other k held
    have apart : other ≠ name := by
      rintro rfl
      exact nomatch missing.symm.trans here
    rw [Contents.set_elsewhere _ _ apart, trees, if_neg apart]
    exact ⟨b, tree, here, grown, found⟩
  case given => exact holds.given

theorem Holds.openTree (holds : d.Holds c current) (name : String) : ∃ d' tree,
    d.openTree name = (d', tree) ∧
      d'.Holds (c.set name (some ((c.buckets name).getD { name }))) current ∧
      d'.Stored name ((c.buckets name).getD { name }) tree := by
  cases here : c.buckets name with
  | some b =>
      obtain ⟨tree, stored⟩ := holds.stored here
      refine ⟨d, tree, ?_, ?_, stored⟩
      · simp only [Disk.openTree, stored.grown]
      · rw [Option.getD_some, Contents.set_same here]
        exact holds
  | none =>
      obtain ⟨missing, unsaved⟩ := holds.absent here
      refine ⟨d.planted name, d.created, ?_, holds.planted here, planted_stored unsaved⟩
      simp only [Disk.openTree, missing]
      rfl

theorem Holds.enter (holds : d.Holds c current) (here : c.buckets name = some b) {tree : Nat}
    (stored : d.Stored name b tree) :
    { d with names := d.names.insert name d.opened,
             buckets := d.buckets.insert d.opened { name, tree, next := b.next },
             opened := d.opened + 1 }.Holds c
      fun other => if other = name then some d.opened else current other := by
  constructor
  case closed => exact holds.closed
  case entries => exact holds.entries
  case fits => exact fun other => (holds.fits other).kept rfl (fun _ _ => rfl) rfl
  case apart => exact holds.apart
  case created => exact holds.created
  case names =>
    intro unlocked other
    rw [Table.get?_insert, holds.names unlocked]
  case opened =>
    intro other k held
    rw [find?, Table.get?_insert]
    split at held
    · rename_i same
      obtain rfl := Option.some.inj held
      rw [same, if_pos rfl]
      exact ⟨b, tree, here, stored.grown, rfl⟩
    · obtain ⟨b', tree', here', grown, found⟩ := holds.opened other k held
      rw [if_neg (Nat.ne_of_lt (holds.given k _ found))]
      exact ⟨b', tree', here', grown, found⟩
  case given =>
    intro k b' found
    rw [find?, Table.get?_insert] at found
    split at found
    · rename_i new
      exact new ▸ Nat.lt_succ_self d.opened
    · exact Nat.lt_succ_of_lt (holds.given k b' found)

theorem bucket_new (unlocked : d.checkOpen = .ok ()) (unopened : d.names.get? name = none)
    {tree : Nat} (grown : d.openTree name = (d', tree)) (stored : d'.Stored name b tree)
    (ordered : b.Ordered) (started : 1 ≤ b.next) :
    d.bucket name =
      .ok ({ d' with names := d'.names.insert name d'.opened,
                     buckets := d'.buckets.insert d'.opened { name, tree, next := b.next },
                     opened := d'.opened + 1 }, d'.opened) := by
  obtain ⟨after, last, bound⟩ := Tree.afterLast_ofRecords ordered
  have next : max after b.next = b.next := by omega
  unfold bucket
  rw [unlocked, unopened]
  simp only [bind, Except.bind, grown, stored.records, Option.getD_some, last, stored.saved, next]
  rfl

theorem Holds.bucket (holds : d.Holds c current) (unlocked : c.closed = false) {log : List Record}
    (logs : ((c.buckets name).getD { name }).Logs name log) :
    ∃ d' h current', d.bucket name = .ok (d', h) ∧
      d'.Holds (c.set name (some ((c.buckets name).getD { name }))) current' ∧
      current' name = some h ∧ ∀ other k, current other = some k → current' other = some k := by
  have free := holds.checkOpen unlocked
  have names := holds.names (holds.closed.trans unlocked)
  cases held : current name with
  | some h =>
      obtain ⟨b, _, here, _⟩ := holds.opened name h held
      refine ⟨d, h, current, ?_, ?_, held, fun _ _ => id⟩
      · unfold Disk.bucket
        rw [free, (names name).trans held]
        rfl
      · rw [here, Option.getD_some, Contents.set_same here]
        exact holds
  | none =>
      obtain ⟨d', tree, grown, after, stored⟩ := holds.openTree name
      have done := bucket_new free ((names name).trans held) grown stored logs.ordered logs.started
      refine ⟨_, d'.opened, _, done, after.enter (Contents.set_here ..) stored, if_pos rfl, ?_⟩
      intro other k old
      have apart : other ≠ name := by
        rintro rfl
        exact nomatch held.symm.trans old
      exact (if_neg apart).trans old

/-! Entries -/

theorem Holds.rewritten (holds : d.Holds c current) {entries : Table Bytes Bytes}
    {entries' : Table String Bytes} (written : entries = Table.renamed utf8 entries') :
    { d with entries }.Holds { c with entries := entries' } current where
  closed := holds.closed
  entries := written
  fits name := (holds.fits name).kept rfl (fun _ _ => rfl) rfl
  apart := holds.apart
  created := holds.created
  names := holds.names
  opened := holds.opened
  given := holds.given

theorem Holds.setEntry (holds : d.Holds c current) (unlocked : c.closed = false) (key : String)
    (value : Bytes) : ∃ d', d.setEntry key value = .ok d' ∧
      d'.Holds { c with entries := c.entries.insert key value } current := by
  have written : d.entries.insert (utf8 key) value =
      Table.renamed utf8 (c.entries.insert key value) := by
    rw [holds.entries, Table.insert_renamed compare_utf8]
  refine ⟨_, ?_, holds.rewritten written⟩
  rw [Disk.setEntry, holds.checkOpen unlocked]
  rfl

theorem Holds.deleteEntry (holds : d.Holds c current) (unlocked : c.closed = false) (key : String) :
    ∃ d', d.deleteEntry key = .ok d' ∧
      d'.Holds { c with entries := c.entries.erase key } current := by
  have written : d.entries.erase (utf8 key) = Table.renamed utf8 (c.entries.erase key) := by
    rw [holds.entries, Table.erase_renamed compare_utf8]
  refine ⟨_, ?_, holds.rewritten written⟩
  rw [Disk.deleteEntry, holds.checkOpen unlocked]
  rfl

theorem Holds.getEntry (holds : d.Holds c current) (unlocked : c.closed = false) (key : String) :
    d.getEntry key = .ok (c.entries.get? key) := by
  rw [Disk.getEntry, holds.checkOpen unlocked, holds.entries, Table.get?_renamed compare_utf8]
  rfl

theorem mapM_entry (entries : Table String Bytes) :
    (Table.renamed utf8 entries).mapM entry = .ok entries := by
  rw [Table.renamed, List.mapM_map]
  refine (mapM_eq_pure fun e _ => ?_).trans (congrArg Except.ok (List.map_id entries))
  simp only [Function.comp_apply, entry, utf8?_utf8]
  rfl

theorem Holds.entriesUnder (holds : d.Holds c current) (unlocked : c.closed = false)
    (start : String) :
    d.entriesUnder start = .ok (c.entries.filter fun e => Text.startsWith start e.1) := by
  have chosen : (d.entries.filter fun e => (utf8 start).isPrefixOf e.1) =
      Table.renamed utf8 (c.entries.filter fun e => Text.startsWith start e.1) := by
    rw [holds.entries, Table.renamed, List.filter_map]
    refine congrArg (List.map _) (List.filter_congr fun e _ => ?_)
    rw [Function.comp_apply, isPrefixOf_utf8]
  rw [Disk.entriesUnder, holds.checkOpen unlocked, chosen]
  exact mapM_entry _

/-! A storage that is closed and opened again -/

theorem Holds.close (holds : d.Holds c current) : d.close.Holds { c with closed := true } current := by
  unfold Disk.close
  split
  · rename_i closed
    have unchanged : { c with closed := true } = c := by rw [← closed, holds.closed]
    rw [unchanged]
    exact holds
  · constructor
    case closed => rfl
    case entries => exact holds.entries
    case fits => exact fun name => (holds.fits name).kept rfl (fun _ _ => rfl) rfl
    case apart => exact holds.apart
    case created => exact holds.created
    case names => exact nofun
    case opened => exact holds.opened
    case given => exact holds.given

theorem Holds.restart (holds : d.Holds c current) :
    d.restart.Holds { c with closed := false } fun _ => none where
  closed := rfl
  entries := holds.entries
  fits name := (holds.fits name).kept rfl (fun _ _ => rfl) rfl
  apart := holds.apart
  created := holds.created
  names _ _ := rfl
  opened _ _ held := nomatch held
  given _ _ found := nomatch found

end Storage.Disk

end MqttBroker
