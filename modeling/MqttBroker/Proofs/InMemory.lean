import MqttBroker.Proofs.Naming
import MqttBroker.Proofs.StorageClients

/-!
What a storage in memory holds: the buckets under their names.
-/

namespace MqttBroker.Storage.Memory

structure Holds (m : Memory) (c : Contents) (current : String → Option Handle) : Prop where
  closed : m.closed = c.closed
  writable : m.failing = false
  entries : m.entries = c.entries
  named : m.Named
  names : ∀ name, m.names.get? name = current name
  buckets : ∀ name, m.named? name = c.buckets name

theorem holds_empty : Holds {} {} fun _ => none :=
  ⟨rfl, rfl, rfl, named_empty, fun _ => rfl, fun _ => rfl⟩

variable {m : Memory} {c : Contents} {current : String → Option Handle} {name : String} {h : Handle}

theorem named?_eq (held : m.names.get? name = some h) : m.named? name = m.find? h := by
  rw [named?, held, Option.bind_some]

theorem Holds.find (holds : m.Holds c current) (held : current name = some h) :
    m.find? h = c.buckets name := by
  rw [← holds.buckets name, named?_eq ((holds.names name).trans held)]

theorem Holds.held (holds : m.Holds c current) (held : current name = some h) :
    ∃ b, c.buckets name = some b := by
  obtain ⟨b, found, _⟩ := holds.named.named name h ((holds.names name).trans held)
  exact ⟨b, (holds.find held).symm.trans found⟩

theorem Holds.opened (holds : m.Holds c current) (unlocked : c.closed = false) :
    m.closed = false :=
  holds.closed.trans unlocked

theorem Holds.under (holds : m.Holds c current) {m' : Memory} {b : Option Bucket}
    {current' : String → Option Handle} (closed : m'.closed = m.closed)
    (failing : m'.failing = m.failing) (entries : m'.entries = m.entries) (named : m'.Named)
    (elsewhere : m.Local name m') (names : ∀ other, m'.names.get? other = current' other)
    (here : m'.named? name = b) : m'.Holds (c.set name b) current' where
  closed := closed.trans holds.closed
  writable := failing.trans holds.writable
  entries := entries.trans holds.entries
  named := named
  names := names
  buckets := by
    intro other
    simp only [Contents.set]
    split
    · rename_i same
      rw [same, here]
    · rename_i apart
      rw [elsewhere.named? holds.named apart, holds.buckets]

theorem Holds.bucket (holds : m.Holds c current) (unlocked : c.closed = false) (name : String) :
    ∃ m' h current', m.bucket name = .ok (m', h) ∧
      m'.Holds (c.set name (some ((c.buckets name).getD { name }))) current' ∧
      current' name = some h ∧ ∀ other k, current other = some k → current' other = some k := by
  obtain ⟨m', h, opened⟩ := bucket_succeeds (holds.opened unlocked) name
  obtain ⟨named, elsewhere, held⟩ := holds.named.bucket opened
  have spares := holds.named.bucket_spares opened
  refine ⟨m', h, fun other => m'.names.get? other, opened, ?_, held, ?_⟩
  · have here : m'.named? name = some ((c.buckets name).getD { name }) := by
      rw [named?_eq held, ← holds.buckets]
      rcases bucket_ok opened with ⟨old, rfl⟩ | ⟨missing, rfl, rfl⟩
      · obtain ⟨b, found, _⟩ := named.named name h held
        rw [named?_eq old, found]
        rfl
      · rw [named?, missing]
        exact (find?_insert ..).trans (if_pos rfl)
    have rest : m'.closed = m.closed ∧ m'.failing = m.failing ∧ m'.entries = m.entries := by
      rcases bucket_ok opened with ⟨_, rfl⟩ | ⟨_, _, rfl⟩ <;> exact ⟨rfl, rfl, rfl⟩
    exact holds.under rest.1 rest.2.1 rest.2.2 named elsewhere (fun _ => rfl) here
  · intro other k old
    exact spares.names other k ((holds.names other).trans old)

theorem Holds.replace (holds : m.Holds c current) (held : current name = some h) {b b' : Bucket}
    (found : m.find? h = some b) (same : b'.name = b.name) :
    (m.replace h b').Holds (c.set name (some b')) current := by
  obtain ⟨b₀, found₀, own⟩ := holds.named.named name h ((holds.names name).trans held)
  obtain rfl := Option.some.inj (found.symm.trans found₀)
  refine holds.under rfl rfl rfl (holds.named.replace found same) (own ▸ replace_local found b')
    holds.names ?_
  have held : (m.replace h b').names.get? name = some h := (holds.names name).trans held
  rw [named?_eq held, find?_insert, if_pos rfl]

theorem Holds.write (holds : m.Holds c current) (held : current name = some h) {b : Bucket}
    (here : c.buckets name = some b) {α : Type} (change : Bucket → Bucket × α)
    (same : (change b).1.name = b.name) :
    ∃ m', m.write h change = .ok (m', (change b).2) ∧
      m'.Holds (c.set name (some (change b).1)) current := by
  have found := (holds.find held).trans here
  refine ⟨m.replace h (change b).1, ?_, holds.replace held found same⟩
  simp only [Memory.write, found, holds.writable, Bool.false_eq_true, if_false]

theorem Holds.drop (holds : m.Holds c current) (held : current name = some h) :
    (m.closeBucket h true).Holds (c.set name none)
      fun other => if other = name then none else current other := by
  obtain ⟨b, found, own⟩ := holds.named.named name h ((holds.names name).trans held)
  have named := holds.named.closeBucket h true
  have elsewhere := closeBucket_local found true
  have names : ∀ other, (m.closeBucket h true).names.get? other =
      if other = name then none else current other := by
    intro other
    rw [closeBucket_clean found, own]
    refine (Table.get?_erase ..).trans ?_
    split
    · rfl
    · exact holds.names other
  have here : (m.closeBucket h true).named? name = none := by
    rw [named?, names, if_pos rfl, Option.bind_none]
  rw [own] at elsewhere
  refine holds.under ?_ ?_ ?_ named elsewhere names here
  all_goals rw [closeBucket_clean found]; rfl

theorem Holds.perform (holds : m.Holds c current) (held : current name = some h) {b : Bucket}
    (here : c.buckets name = some b) (r : BucketRequest) :
    ∃ m', (Storage.memory m).perform h r = (.memory m', (b.perform r).2) ∧
      m'.Holds (c.set name (b.perform r).1) (r.leaves name current) := by
  have found := (holds.find held).trans here
  have same := Contents.set_same here
  cases r with
  | put time batch =>
      obtain ⟨m', done, after⟩ := holds.write held here (fun b => b.put time batch) rfl
      refine ⟨m', ?_, after⟩
      simp only [Storage.perform, Storage.put, Memory.put, done, Answer.of, Bucket.perform]
  | get offset limit =>
      refine ⟨m, ?_, same.symm ▸ holds⟩
      simp only [Storage.perform, Storage.get, Memory.get, found, Answer.of, Bucket.perform]
  | deleteRange start stop =>
      obtain ⟨m', done, after⟩ := holds.write held here (fun b => b.deleteRange start stop) rfl
      refine ⟨m', ?_, after⟩
      simp only [Storage.perform, Storage.deleteRange, Memory.deleteRange, done, Except.map, settle,
        Bucket.perform]
  | deleteBelow stop =>
      obtain ⟨m', done, after⟩ := holds.write held here (fun b => b.deleteRange 0 stop) rfl
      refine ⟨m', ?_, after⟩
      simp only [Storage.perform, Storage.deleteBelow, Storage.deleteRange, Memory.deleteRange, done,
        Except.map, settle, Bucket.perform]
  | deleteBefore time =>
      obtain ⟨m', done, after⟩ := holds.write held here (fun b => b.deleteBefore time) rfl
      refine ⟨m', ?_, after⟩
      simp only [Storage.perform, Storage.deleteBefore, Memory.deleteBefore, done, Except.map, settle,
        Bucket.perform]
  | size =>
      refine ⟨m, ?_, same.symm ▸ holds⟩
      simp only [Storage.perform, Storage.size, Memory.size, found, Answer.of, Bucket.perform]
  | close clean =>
      cases clean with
      | false =>
          refine ⟨m, ?_, same.symm ▸ holds⟩
          simp only [Storage.perform, Storage.closeBucket, closeBucket_kept, Bucket.perform]
      | true => exact ⟨m.closeBucket h true, rfl, holds.drop held⟩

/-! Entries -/

theorem Holds.rewritten (holds : m.Holds c current) (entries : Table String Bytes) :
    { m with entries }.Holds { c with entries } current where
  closed := holds.closed
  writable := holds.writable
  entries := rfl
  named := holds.named.of_eq rfl rfl rfl
  names := holds.names
  buckets := holds.buckets

theorem Holds.setEntry (holds : m.Holds c current) (unlocked : c.closed = false) (key : String)
    (value : Bytes) : ∃ m', m.setEntry key value = .ok m' ∧
      m'.Holds { c with entries := c.entries.insert key value } current := by
  refine ⟨_, setEntry_succeeds (holds.opened unlocked) key value, ?_⟩
  rw [holds.entries]
  exact holds.rewritten _

theorem Holds.deleteEntry (holds : m.Holds c current) (unlocked : c.closed = false) (key : String) :
    ∃ m', m.deleteEntry key = .ok m' ∧
      m'.Holds { c with entries := c.entries.erase key } current := by
  refine ⟨_, deleteEntry_succeeds (holds.opened unlocked) key, ?_⟩
  rw [holds.entries]
  exact holds.rewritten _

theorem Holds.getEntry (holds : m.Holds c current) (unlocked : c.closed = false) (key : String) :
    m.getEntry key = .ok (c.entries.get? key) := by
  rw [getEntry_succeeds (holds.opened unlocked), holds.entries]

theorem Holds.entriesUnder (holds : m.Holds c current) (unlocked : c.closed = false)
    (start : String) :
    m.entriesUnder start = .ok (c.entries.filter fun e => Text.startsWith start e.1) := by
  rw [entriesUnder_succeeds (holds.opened unlocked), holds.entries]

theorem Holds.locked (holds : m.Holds c current) (closed : Bool) :
    { m with closed }.Holds { c with closed } current where
  closed := rfl
  writable := holds.writable
  entries := holds.entries
  named := holds.named.of_eq rfl rfl rfl
  names := holds.names
  buckets := holds.buckets

end MqttBroker.Storage.Memory
