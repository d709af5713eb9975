import MqttBroker.Proofs.KeyOrder
import MqttBroker.Proofs.Memory
import MqttBroker.Proofs.Records
import MqttBroker.Proofs.Tallies
import MqttBroker.Retain

/-!
Retained messages in memory and in storage. After any messages were set, each topic has the last
one that was set for it, storage has the records of just these, the gauge shows how many there are,
and who loads that storage selects the same messages.
-/

namespace MqttBroker

namespace RetainStore

variable {r r' : RetainStore} {m m' later : Storage.Memory}

def kept (p : Publish) : Publish := { p with dup := false, packetId := none }

/-- What is kept for a topic: the last message that was set for it, if that had a payload. -/
def last? (sets : List Publish) (topic : String) : Option Publish :=
  match (sets.filter fun p => p.topic = topic).getLast? with
  | none => none
  | some p => if p.payload.isEmpty then none else some (kept p)

def record (topic : String) (message : Publish) : Bytes :=
  Codec.Json.store (Codec.Json.ofRetained { topic, message })

def records (t : Table String Publish) : Table String Bytes :=
  t.map fun e => (key e.1, record e.1 e.2)

def setAll (r : RetainStore) (m : Storage.Memory) (sets : List Publish) :
    Except StorageError (RetainStore × Storage.Memory) :=
  sets.foldlM (fun at_ p => (at_.1.set at_.2 p).2.map ((at_.1.set at_.2 p).1, ·)) (r, m)

structure Mirrored (r : RetainStore) (m : Storage.Memory) : Prop where
  increasing : r.messages.Increasing
  entries : m.entries = records r.messages
  shown : r.gauge.Shows r.messages.length

/-- Another storage has the entries of this one, and those it has beside them can not be read as
records of messages. -/
structure Surrounded (m later : Storage.Memory) : Prop where
  opened : later.closed = false
  increasing : later.entries.Increasing
  all : ∀ e ∈ m.entries, e ∈ later.entries
  others : ∀ e ∈ later.entries, e ∉ m.entries → Text.startsWith keyStart e.1 = true →
    Codec.Json.load? Codec.Json.toRetained? e.2 = none

/-! The records -/

theorem compare_key (topic other : String) : compare (key topic) (key other) = compare topic other :=
  compare_append keyStart topic other

theorem key_injective {topic other : String} (same : key topic = key other) : topic = other := by
  have equal := compare_key topic other
  rw [same, Std.ReflOrd.compare_self] at equal
  exact Std.LawfulEqOrd.eq_of_compare equal.symm

theorem insert_records (topic : String) (p : Publish) (t : Table String Publish) :
    (records t).insert (key topic) (record topic p) = records (t.insert topic p) := by
  unfold records
  induction t with
  | nil => rfl
  | cons e rest ih =>
      rw [List.map_cons, Table.insert, Table.insert, compare_key]
      cases compare e.1 topic with
      | lt => exact congrArg (_ :: ·) ih
      | eq => rfl
      | gt => rfl

theorem erase_records (topic : String) (t : Table String Publish) :
    (records t).erase (key topic) = records (t.erase topic) := by
  unfold records Table.erase
  rw [List.filter_map]
  congr 1
  refine List.filter_congr fun e _ => ?_
  rw [Function.comp_apply, compare_key]

theorem increasing_records {t : Table String Publish} (increasing : t.Increasing) :
    (records t).Increasing := by
  refine List.pairwise_map.mpr (increasing.imp fun {e f} below => ?_)
  rw [compare_key]
  exact below

theorem startsWith_key (topic : String) : Text.startsWith keyStart (key topic) = true := by
  unfold Text.startsWith
  rw [List.isPrefixOf_iff_prefix, key, String.toList_append]
  exact List.prefix_append ..

theorem filter_records (t : Table String Publish) :
    (records t).filter (fun e => Text.startsWith keyStart e.1) = records t := by
  refine List.filter_eq_self.mpr fun e member => ?_
  obtain ⟨_, _, rfl⟩ := List.mem_map.mp member
  exact startsWith_key _

/-! One message that is set -/

theorem set_messages (opened : m.closed = false) (r : RetainStore) (p : Publish) :
    (r.set m p).1.messages =
      if p.payload.isEmpty then r.messages.erase p.topic
      else r.messages.insert p.topic (kept p) := by
  unfold set
  by_cases empty : p.payload.isEmpty = true
  · simp only [if_pos empty]
    by_cases there : r.messages.contains p.topic = true
    · rw [if_pos there]
    · rw [if_neg there, Table.erase_absent (Bool.eq_false_iff.mpr there)]
  · simp only [if_neg empty, Storage.Memory.setEntry_succeeds opened]
    rfl

theorem set_succeeds (opened : m.closed = false) (r : RetainStore) (p : Publish) :
    ∃ m', (r.set m p).2 = .ok m' ∧ m'.closed = false ∧ m'.entries =
      if p.payload.isEmpty then m.entries.erase (key p.topic)
      else m.entries.insert (key p.topic) (record p.topic (kept p)) := by
  unfold set
  by_cases empty : p.payload.isEmpty = true
  · simp only [if_pos empty]
    exact ⟨_, Storage.Memory.deleteEntry_succeeds opened _, opened, rfl⟩
  · simp only [if_neg empty, Storage.Memory.setEntry_succeeds opened]
    exact ⟨_, rfl, opened, rfl⟩

theorem set_namespaces (r : RetainStore) (m : Storage.Memory) (p : Publish) :
    (r.set m p).1.namespaces = r.namespaces := by
  unfold set
  by_cases empty : p.payload.isEmpty = true
  · simp only [if_pos empty]
    split <;> rfl
  · simp only [if_neg empty]
    split <;> rfl

theorem set_gauge (increasing : r.messages.Increasing)
    (shows : r.gauge.Shows r.messages.length) (m : Storage.Memory) (p : Publish) :
    (r.set m p).1.messages.Increasing ∧
      (r.set m p).1.gauge.Shows (r.set m p).1.messages.length := by
  have without := increasing.length_erase p.topic
  have counted := increasing.length_insert p.topic
  have present : r.messages.contains p.topic = (r.messages.get? p.topic).isSome := rfl
  unfold RetainStore.set
  cases found : r.messages.get? p.topic with
  | none =>
      have absent : r.messages.contains p.topic = false := by rw [present, found]; rfl
      simp only [found, Option.toList_none, List.length_nil] at counted
      simp only [absent, Bool.false_eq_true, if_false]
      split
      · exact ⟨increasing, shows⟩
      · split
        · exact ⟨increasing, shows⟩
        · exact ⟨increasing.insert p.topic _, shows.increment (counted _)⟩
  | some old =>
      have there : r.messages.contains p.topic = true := by rw [present, found]; rfl
      simp only [found, Option.toList_some, List.length_singleton] at without counted
      simp only [there, if_true]
      split
      · exact ⟨increasing.erase p.topic, shows.decrement without⟩
      · split
        · exact ⟨increasing, shows⟩
        · refine ⟨increasing.insert p.topic _, ?_⟩
          rw [Nat.add_right_cancel (counted _)]
          exact shows

theorem Mirrored.set (mirrored : Mirrored r m) (opened : m.closed = false) (p : Publish) :
    ∃ m', (r.set m p).2 = .ok m' ∧ m'.closed = false ∧ Mirrored (r.set m p).1 m' := by
  obtain ⟨m', done, opened', entries⟩ := set_succeeds opened r p
  obtain ⟨increasing, shown⟩ := set_gauge mirrored.increasing mirrored.shown m p
  refine ⟨m', done, opened', increasing, ?_, shown⟩
  rw [entries, set_messages opened, mirrored.entries]
  split
  · exact erase_records ..
  · exact insert_records ..

/-! All messages that were set -/

theorem last?_append (sets : List Publish) (p : Publish) (topic : String) :
    last? (sets ++ [p]) topic =
      if topic = p.topic then (if p.payload.isEmpty then none else some (kept p))
      else last? sets topic := by
  unfold last?
  rw [List.filter_append, List.getLast?_append]
  by_cases same : topic = p.topic
  · simp [same]
  · have other : p.topic ≠ topic := Ne.symm same
    simp [same, other]

theorem get?_set (opened : m.closed = false) (r : RetainStore) (p : Publish) (topic : String) :
    (r.set m p).1.messages.get? topic =
      if topic = p.topic then (if p.payload.isEmpty then none else some (kept p))
      else r.messages.get? topic := by
  rw [set_messages opened]
  by_cases empty : p.payload.isEmpty = true
  · simp only [if_pos empty, Table.get?_erase]
  · simp only [if_neg empty, Table.get?_insert]

theorem Mirrored.setAll (mirrored : Mirrored r m) (opened : m.closed = false)
    (none : r.messages = []) (sets : List Publish) :
    ∃ r' m', r.setAll m sets = .ok (r', m') ∧ m'.closed = false ∧ Mirrored r' m' ∧
      r'.namespaces = r.namespaces ∧ ∀ topic, r'.messages.get? topic = last? sets topic := by
  induction sets using List.reverseRecOn with
  | nil =>
      refine ⟨r, m, rfl, opened, mirrored, rfl, fun topic => ?_⟩
      rw [none]
      rfl
  | append_singleton sets p ih =>
      obtain ⟨r', m', before, opened', mirrored', spaces, found⟩ := ih
      obtain ⟨m'', done, opened'', after⟩ := mirrored'.set opened' p
      refine ⟨(r'.set m' p).1, m'', ?_, opened'', after, ?_, fun topic => ?_⟩
      · unfold RetainStore.setAll at before ⊢
        rw [List.foldlM_append, before]
        simp only [List.foldlM_cons, List.foldlM_nil, Except.bind, Bind.bind, done, Except.map]
        rfl
      · rw [set_namespaces, spaces]
      · rw [get?_set opened', last?_append, found]

/-! Storage read again -/

theorem load?_record (topic : String) (p : Publish) :
    Codec.Json.load? Codec.Json.toRetained? (record topic p) = some { topic, message := p } :=
  Codec.Json.load?_ofRetained _

/-- Of the entries that are read, those of the storage itself are all that count. -/
theorem Surrounded.decoded (surrounded : Surrounded m later) {t : Table String Publish}
    (increasing : t.Increasing) (entries : m.entries = records t) :
    (later.entries.filter fun e => Text.startsWith keyStart e.1).filterMap
      (fun e => Codec.Json.load? Codec.Json.toRetained? e.2) =
      t.map fun e => { topic := e.1, message := e.2 } := by
  have reads : ∀ e ∈ records t, Text.startsWith keyStart e.1 = true ∧
      (Codec.Json.load? Codec.Json.toRetained? e.2).isSome = true := by
    intro e member
    obtain ⟨_, _, rfl⟩ := List.mem_map.mp member
    exact ⟨startsWith_key _, by rw [load?_record]; rfl⟩
  have kept : later.entries.filter (fun e => Text.startsWith keyStart e.1 &&
      (Codec.Json.load? Codec.Json.toRetained? e.2).isSome) = records t := by
    refine Table.Increasing.ext (surrounded.increasing.filter _) (increasing_records increasing)
      fun e => ?_
    rw [List.mem_filter, Bool.and_eq_true]
    constructor
    · rintro ⟨member, under, decodes⟩
      by_contra other
      rw [surrounded.others e member (entries ▸ other) under] at decodes
      cases decodes
    · exact fun member => ⟨surrounded.all e (entries ▸ member), reads e member⟩
  have filtered : (later.entries.filter fun e => Text.startsWith keyStart e.1).filterMap
      (fun e => Codec.Json.load? Codec.Json.toRetained? e.2) =
        (records t).filterMap fun e => Codec.Json.load? Codec.Json.toRetained? e.2 := by
    rw [← kept, List.filterMap_filter, List.filterMap_filter]
    refine List.filterMap_congr fun e _ => ?_
    cases Codec.Json.load? Codec.Json.toRetained? e.2 <;> simp
  rw [filtered, records, List.filterMap_map, ← List.filterMap_eq_map]
  refine List.filterMap_congr fun e _ => ?_
  exact load?_record e.1 e.2

theorem Surrounded.load (surrounded : Surrounded m later) (mirrored : Mirrored r m) :
    ({ namespaces := r.namespaces } : RetainStore).load later =
      .ok { namespaces := r.namespaces, messages := r.messages,
            gauge := Gauge.set {} r.messages.length } := by
  have decoded := surrounded.decoded mirrored.increasing mirrored.entries
  have entered : (r.messages.map fun e => ({ topic := e.1, message := e.2 } : RetainedRecord)).foldl
      (fun t record => Table.insert record.topic record.message t) [] = r.messages := by
    rw [List.foldl_map]
    exact mirrored.increasing.ofList
  unfold RetainStore.load
  rw [Storage.Memory.entriesUnder_succeeds surrounded.opened]
  simp only [Bind.bind, Except.bind, pure, Except.pure, decoded, entered]

theorem Surrounded.insert (opened : m.closed = false) (increasing : m.entries.Increasing)
    {name : String} {data : Bytes} (fresh : ∀ e ∈ m.entries, e.1 ≠ name)
    (broken : Codec.Json.load? Codec.Json.toRetained? data = none) :
    Surrounded m { m with entries := m.entries.insert name data } where
  opened := opened
  increasing := increasing.insert name data
  all e member := by
    have found := increasing.mem_iff.mp member
    have still : (m.entries.insert name data).get? e.1 = some e.2 := by
      rw [Table.get?_insert, if_neg (fresh e member), found]
    exact Table.mem_of_get? still
  others e member other _ := by
    rcases Table.mem_insert member with rfl | old
    · exact broken
    · exact absurd old other

/-- What is kept is what was set last, in memory and in storage; and whoever loads the storage
selects the same. -/
theorem retained_as_set (r : RetainStore) (m : Storage.Memory) (opened : m.closed = false)
    (nothing : r.messages = []) (zero : r.gauge.current = 0) (empty : m.entries = [])
    (sets : List Publish) :
    ∃ r' m', r.setAll m sets = .ok (r', m') ∧ m'.closed = false ∧ Mirrored r' m' ∧
      m'.entriesUnder keyStart = .ok (records r'.messages) ∧
      (∀ topic, r'.messages.get? topic = last? sets topic) ∧
      ∀ later, Surrounded m' later →
        ∃ loaded, ({ namespaces := r.namespaces } : RetainStore).load later = .ok loaded ∧
          loaded.gauge.Shows r'.messages.length ∧
          ∀ filter, loaded.select filter = r'.select filter := by
  have start : Mirrored r m := by
    refine ⟨nothing ▸ List.Pairwise.nil, by rw [empty, nothing]; rfl, ?_⟩
    rw [nothing]
    exact ⟨by rw [zero]; rfl, fun _ => zero⟩
  obtain ⟨r', m', run, opened', mirrored, spaces, found⟩ := start.setAll opened nothing sets
  have under : m'.entriesUnder keyStart = .ok (records r'.messages) := by
    rw [Storage.Memory.entriesUnder_succeeds opened', mirrored.entries, filter_records]
  refine ⟨r', m', run, opened', mirrored, under, found, fun later surrounded => ?_⟩
  refine ⟨_, spaces ▸ surrounded.load mirrored, Gauge.shows_set .., fun filter => ?_⟩
  rw [select, select, spaces]

theorem retained_as_set_again :
    let sets : List Publish :=
      [{ topic := "a", payload := [120], qos := .atLeastOnce },
       { topic := "b", payload := [121], qos := .atMostOnce },
       { topic := "b", payload := [], qos := .atMostOnce },
       { topic := "a", payload := [122], qos := .atLeastOnce, dup := true, packetId := some .one }]
    ∃ r' m', ({} : RetainStore).setAll {} sets = .ok (r', m') ∧
      r'.messages.get? "a" = some { topic := "a", payload := [122], qos := .atLeastOnce } ∧
      r'.messages.get? "b" = none ∧
      ∃ loaded, ({} : RetainStore).load
          { m' with entries := m'.entries.insert (key "c") [123] } = .ok loaded ∧
        ∀ filter, loaded.select filter = r'.select filter := by
  intro sets
  obtain ⟨r', m', run, opened, mirrored, _, found, reload⟩ :=
    retained_as_set {} {} rfl rfl rfl rfl sets
  have increasing : m'.entries.Increasing :=
    mirrored.entries ▸ increasing_records mirrored.increasing
  have fresh : ∀ e ∈ m'.entries, e.1 ≠ key "c" := by
    rw [mirrored.entries]
    intro e member same
    obtain ⟨⟨topic, p⟩, there, rfl⟩ := List.mem_map.mp member
    have own : topic = "c" := key_injective same
    subst own
    have held := mirrored.increasing.mem_iff.mp there
    rw [found] at held
    cases held
  have broken : Codec.Json.load? Codec.Json.toRetained? [123] = none := by decide +kernel
  obtain ⟨loaded, done, _, same⟩ := reload _ (Surrounded.insert opened increasing fresh broken)
  exact ⟨r', m', run, found "a", found "b", loaded, done, same⟩

end RetainStore

end MqttBroker
