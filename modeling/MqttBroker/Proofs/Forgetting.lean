import MqttBroker.Proofs.Readmission
import MqttBroker.Proofs.Retaining

/-!
Retained messages when storage refuses to be changed. A message that storage does not take is not
kept in memory either. A message that storage does not give up is cleared from memory all the same:
the broker answers without it, and the next one that is started over the storage has it again. This
is the only way in which memory and storage come apart.
-/

namespace MqttBroker

namespace RetainStore

variable {r : RetainStore} {m m' : Storage.Memory} {p : Publish}

def Clears (r : RetainStore) (p : Publish) : Prop :=
  p.payload.isEmpty = true ∧ r.messages.contains p.topic = true

instance (r : RetainStore) (p : Publish) : Decidable (r.Clears p) :=
  inferInstanceAs (Decidable (_ ∧ _))

def record? (e : String × Bytes) : Option RetainedRecord :=
  if Text.startsWith keyStart e.1 then Codec.Json.load? Codec.Json.toRetained? e.2 else none

theorem record?_record (topic : String) (p : Publish) :
    record? (key topic, record topic p) = some { topic, message := p } := by
  rw [record?, if_pos (startsWith_key topic), load?_record]

def enter (entries : Table String Bytes) (t : Table String Publish) : Table String Publish :=
  (entries.filterMap record?).foldl (fun t record => t.insert record.topic record.message) t

/-- The messages that come from a storage once it is open. -/
def recovered (m : Storage.Memory) : Table String Publish := enter m.entries []

theorem load_recovered (opened : m.closed = false) (nothing : r.messages = []) :
    r.load m =
      .ok { r with messages := recovered m, gauge := r.gauge.set (recovered m).length } := by
  have read : (m.entries.filter fun e => Text.startsWith keyStart e.1).filterMap
      (fun e => Codec.Json.load? Codec.Json.toRetained? e.2) = m.entries.filterMap record? := by
    rw [List.filterMap_filter]
    rfl
  unfold load
  rw [Storage.Memory.entriesUnder_succeeds opened]
  simp only [Bind.bind, Except.bind, pure, Except.pure, read, nothing, recovered, enter]

/-! One message -/

theorem set_refused {e : StorageError} (refused : (r.set m p).2 = .error e) :
    (r.set m p).1 = if r.Clears p then
      { r with messages := r.messages.erase p.topic, gauge := r.gauge.decrement } else r := by
  unfold set at refused ⊢
  cases empty : p.payload.isEmpty with
  | true =>
      simp only [Clears, empty, true_and, if_true]
  | false =>
      simp only [Clears, empty, Bool.false_eq_true, false_and, if_false] at refused ⊢
      split
      · rfl
      · rename_i stored
        rw [stored] at refused
        cases refused

theorem refuses_iff (r : RetainStore) (m : Storage.Memory) (p : Publish) :
    (∃ e, (r.set m p).2 = .error e) ↔ m.closed = true := by
  constructor
  · rintro ⟨e, refused⟩
    by_contra opened
    obtain ⟨m', done, _⟩ := set_succeeds (Bool.eq_false_iff.mpr opened) r p
    rw [done] at refused
    cases refused
  · intro closed
    refine ⟨.closed, ?_⟩
    unfold set
    cases p.payload.isEmpty with
    | true =>
        simp [Storage.Memory.deleteEntry, Storage.Memory.checkOpen, closed, Bind.bind, Except.bind]
    | false =>
        simp [Storage.Memory.setEntry, Storage.Memory.checkOpen, closed, Bind.bind, Except.bind]

theorem select_erase (keyed : Keyed r.messages) (topic : String) (gauge : Gauge) (filter : String) :
    select { r with messages := r.messages.erase topic, gauge } filter =
      (r.select filter).filter fun p => p.topic ≠ topic := by
  unfold select
  cases Topic.parse filter with
  | error e => rfl
  | ok t =>
      simp only
      rw [List.filter_map, Table.erase, List.filter_filter, List.filter_filter]
      congr 1
      refine List.filter_congr fun e member => ?_
      rw [Function.comp_apply, keyed e member, Bool.and_comm]
      congr 1
      by_cases same : e.1 = topic
      · simp [same]
      · simp [same, Table.compare_ne (Ne.symm same)]

/-- A broker that is started over the storage, once it is open again, keeps what is recovered. -/
theorem start_recovered (restorable : m.Restorable) (settings : Settings) (now : Nat)
    (clock : Int64) : ∃ b, Broker.start settings m.reopen now clock = .ok b ∧
      b.retain.messages = recovered m := by
  have again : m.reopen.Restorable := ⟨restorable.named.of_eq rfl rfl rfl, restorable.filed⟩
  obtain ⟨b, done, _⟩ := Broker.start_readmitted again rfl settings now clock
  refine ⟨b, done, ?_⟩
  simp only [Broker.start, bind_eq_ok, mapError_eq_ok] at done
  obtain ⟨retain, loaded, _, _, restored⟩ := done
  have same := ((Broker.startKeeps_given settings retain).restoreAll ⟨rfl, rfl⟩ restored).2
  rw [load_recovered rfl rfl] at loaded
  cases loaded
  exact congrArg RetainStore.messages same

/-- What is left when storage refuses a message: everything as it was, unless the message was to
clear a topic that is kept. Then the topic is gone from memory, from the answers and from the
gauge, and a broker that is started over the storage does not agree any more. -/
theorem refused_set_leaves {e : StorageError} (refused : (r.set m p).2 = .error e) :
    ((r.set m p).1 = r ↔ ¬r.Clears p) ∧
    (r.Clears p →
      (∀ topic, (r.set m p).1.messages.get? topic =
        if topic = p.topic then none else r.messages.get? topic) ∧
      (r.set m p).1.gauge = r.gauge.decrement ∧
      (Keyed r.messages → ∀ filter, (r.set m p).1.select filter =
        (r.select filter).filter fun q => q.topic ≠ p.topic)) ∧
    (m.Restorable → ∀ settings now clock, ∃ b,
      Broker.start settings m.reopen now clock = .ok b ∧
      (b.retain.messages = r.messages →
        (b.retain.messages = (r.set m p).1.messages ↔ ¬r.Clears p))) := by
  rw [set_refused refused]
  by_cases clears : r.Clears p
  · rw [if_pos clears]
    have lost : r.messages.erase p.topic ≠ r.messages := by
      intro same
      have some := clears.2
      rw [← same, Table.contains, Table.get?_erase, if_pos rfl] at some
      cases some
    refine ⟨?_, fun _ => ⟨?_, rfl, ?_⟩, fun restorable settings now clock => ?_⟩
    · refine iff_of_false (fun same => ?_) (not_not.mpr clears)
      exact lost (congrArg RetainStore.messages same)
    · exact fun topic => Table.get?_erase ..
    · exact fun keyed filter => select_erase keyed p.topic _ filter
    · obtain ⟨b, done, _⟩ := start_recovered restorable settings now clock
      refine ⟨b, done, fun agreed => ?_⟩
      exact iff_of_false (fun same => lost (same.symm.trans agreed)) (not_not.mpr clears)
  · rw [if_neg clears]
    refine ⟨iff_of_true rfl clears, fun own => absurd own clears, ?_⟩
    intro restorable settings now clock
    obtain ⟨b, done, _⟩ := start_recovered restorable settings now clock
    exact ⟨b, done, fun agreed => iff_of_true agreed clears⟩

def letter : Publish := { topic := "a", retain := true, qos := .atLeastOnce, payload := [120] }

def letterKept : RetainStore where
  messages := [("a", letter)]
  gauge := { current := 1, peak := 1 }

def letterStored : Storage.Memory where
  entries := Table.insert (key "a") (record "a" letter) []
  closed := true

theorem letterStored_restorable : letterStored.Restorable := by
  refine ⟨Storage.Memory.named_empty.of_eq rfl rfl rfl, Storage.filed_empty.insert fun under => ?_⟩
  rw [Storage.startsWith_retained] at under
  cases under

theorem letterStored_recovered : recovered letterStored = letterKept.messages := by
  have entries : letterStored.entries = [(key "a", record "a" letter)] := rfl
  rw [recovered, entries, enter, List.filterMap_cons, record?_record]
  rfl

theorem letterKept_not_replaced :
    let next := { letter with payload := [121] }
    (letterKept.set letterStored next).2 = .error .closed ∧
      (letterKept.set letterStored next).1 = letterKept ∧
      ∃ b, Broker.start {} letterStored.reopen 0 0 = .ok b ∧
        b.retain.messages = (letterKept.set letterStored next).1.messages := by
  intro next
  have refused : (letterKept.set letterStored next).2 = .error .closed := rfl
  have stays : ¬letterKept.Clears next := by decide
  obtain ⟨same, _, restarted⟩ := refused_set_leaves refused
  obtain ⟨b, done, agrees⟩ := restarted letterStored_restorable {} 0 0
  obtain ⟨b', again, recovered⟩ := start_recovered letterStored_restorable {} 0 0
  cases done.symm.trans again
  exact ⟨refused, same.mpr stays, b, done,
    (agrees (recovered.trans letterStored_recovered)).mpr stays⟩

/-- A letter that is cleared in vain is gone until the next start, and then it is back. -/
theorem letterKept_forgotten :
    let empty := { letter with payload := [] }
    (letterKept.set letterStored empty).2 = .error .closed ∧
      letterKept.select "a" = [letter] ∧
      (letterKept.set letterStored empty).1.select "a" = [] ∧
      (letterKept.set letterStored empty).1.gauge.current = 0 ∧
      ∃ b, Broker.start {} letterStored.reopen 0 0 = .ok b ∧
        b.retain.messages = [("a", letter)] := by
  obtain ⟨b, done, recovered⟩ := start_recovered letterStored_restorable {} 0 0
  exact ⟨rfl, rfl, rfl, rfl, b, done, recovered.trans letterStored_recovered⟩

/-! What a storage gives back -/

def Labeled (entries : Table String Bytes) : Prop :=
  ∀ e ∈ entries, ∀ record, record? e = some record → e.1 = key record.topic

theorem Labeled.erase {entries : Table String Bytes} (labeled : Labeled entries) (name : String) :
    Labeled (entries.erase name) :=
  fun e member => labeled e (List.mem_of_mem_filter member)

theorem Labeled.insert {entries : Table String Bytes} (labeled : Labeled entries) (topic : String)
    (p : Publish) : Labeled (entries.insert (key topic) (record topic p)) := by
  intro e member found read
  rcases Table.mem_insert member with rfl | old
  · rw [record?_record] at read
    cases read
    rfl
  · exact labeled e old found read

theorem get?_enter {entries : Table String Bytes} (increasing : entries.Increasing)
    (labeled : Labeled entries) (t : Table String Publish) (topic : String) :
    (enter entries t).get? topic =
      (((entries.get? (key topic)).bind fun data => record? (key topic, data)).map
        RetainedRecord.message).or (t.get? topic) := by
  induction entries generalizing t with
  | nil => rfl
  | cons e rest ih =>
      obtain ⟨above, increasing⟩ := List.pairwise_cons.mp increasing
      have further := ih increasing fun f member => labeled f (List.mem_cons_of_mem e member)
      have absent : e.1 = key topic → Table.get? rest (key topic) = none := by
        intro same
        refine Table.get?_above fun f member => ?_
        have below := above f member
        rw [same] at below
        intro equal
        rw [Std.OrientedCmp.eq_symm equal] at below
        cases below
      unfold enter at further ⊢
      rw [List.filterMap_cons, Table.get?_cons]
      cases read : record? e with
      | none =>
          simp only
          rw [further]
          split
          · rename_i equal
            have same := Std.LawfulEqOrd.eq_of_compare equal
            rw [absent same, Option.bind_some, ← same, read]
            rfl
          · rfl
      | some found =>
          have own := labeled e (List.mem_cons_self ..) found read
          simp only [List.foldl_cons]
          rw [further, Table.get?_insert]
          by_cases same : topic = found.topic
          · subst same
            rw [if_pos rfl, if_pos (by rw [own]; exact Std.ReflOrd.compare_self), absent own,
              Option.bind_some, ← own, read]
            rfl
          · rw [if_neg same, if_neg]
            intro equal
            exact same (key_injective ((Std.LawfulEqOrd.eq_of_compare equal).symm.trans own))

theorem get?_recovered (increasing : m.entries.Increasing) (labeled : Labeled m.entries)
    (topic : String) :
    (recovered m).get? topic =
      ((m.entries.get? (key topic)).bind fun data => record? (key topic, data)).map
        RetainedRecord.message := by
  rw [recovered, get?_enter increasing labeled]
  exact Option.or_none

end RetainStore

/-! Memory and storage together -/

open RetainStore

structure Mirror where
  kept : RetainStore
  storage : Storage.Memory

namespace Mirror

variable {mirror : Mirror} {lost : List String}

inductive Act
  | set (p : Publish)
  | close
  | reopen

def step (mirror : Mirror) : Act → Mirror
  | .set p =>
    let (kept, result) := mirror.kept.set mirror.storage p
    { kept, storage := result.toOption.getD mirror.storage }
  | .close => { mirror with storage := mirror.storage.close }
  | .reopen => { mirror with storage := mirror.storage.reopen }

def run (mirror : Mirror) (acts : List Act) : Mirror := acts.foldl step mirror

theorem keep_step (b : Broker) {p : Publish} (retained : p.retain = true) :
    b.keep p = { b with
      retain := (step ⟨b.retain, b.storage⟩ (.set p)).kept
      storage := (step ⟨b.retain, b.storage⟩ (.set p)).storage } := by
  simp only [Broker.keep, retained, if_true, step]
  generalize b.retain.set b.storage p = outcome
  obtain ⟨kept, result⟩ := outcome
  cases result <;> rfl

/-- The topics that are lost in memory alone: a topic gets lost when it is cleared while the
storage is closed, and is found again when it is set while the storage is open. -/
def loses (mirror : Mirror) (lost : List String) : Act → List String
  | .set p =>
    if mirror.storage.closed then if mirror.kept.Clears p then p.topic :: lost else lost
    else lost.filter (· ≠ p.topic)
  | _ => lost

def losesAll : Mirror → List String → List Act → List String
  | _, lost, [] => lost
  | mirror, lost, act :: rest => (mirror.step act).losesAll (mirror.loses lost act) rest

def Agrees (mirror : Mirror) (topic : String) : Prop :=
  (recovered mirror.storage).get? topic = mirror.kept.messages.get? topic

/-- Memory and storage agree but on the topics that are lost. -/
structure Tracks (mirror : Mirror) (lost : List String) : Prop where
  increasing : mirror.storage.entries.Increasing
  labeled : Labeled mirror.storage.entries
  agrees : ∀ topic, topic ∉ lost → mirror.Agrees topic
  gone : ∀ topic ∈ lost, mirror.kept.messages.get? topic = none ∧
    ((recovered mirror.storage).get? topic).isSome = true

theorem Tracks.agrees_iff (tracks : mirror.Tracks lost) (topic : String) :
    mirror.Agrees topic ↔ topic ∉ lost := by
  refine ⟨fun agrees member => ?_, tracks.agrees topic⟩
  obtain ⟨none, some⟩ := tracks.gone topic member
  rw [agrees, none] at some
  cases some

theorem Tracks.stored (tracks : mirror.Tracks lost) {p : Publish} {kept : RetainStore}
    {storage : Storage.Memory} (increasing : storage.entries.Increasing)
    (labeled : Labeled storage.entries)
    (own : (recovered storage).get? p.topic = kept.messages.get? p.topic)
    (others : ∀ topic, topic ≠ p.topic →
      storage.entries.get? (key topic) = mirror.storage.entries.get? (key topic) ∧
        kept.messages.get? topic = mirror.kept.messages.get? topic) :
    Tracks { kept, storage } (lost.filter (· ≠ p.topic)) := by
  have still : ∀ topic, topic ≠ p.topic →
      (recovered storage).get? topic = (recovered mirror.storage).get? topic := by
    intro topic apart
    rw [get?_recovered increasing labeled, get?_recovered tracks.increasing tracks.labeled,
      (others topic apart).1]
  refine ⟨increasing, labeled, fun topic found => ?_, fun topic member => ?_⟩
  · by_cases same : topic = p.topic
    · exact same ▸ own
    · have agrees := tracks.agrees topic fun member =>
        found (List.mem_filter.mpr ⟨member, by simpa using same⟩)
      exact (still topic same).trans (agrees.trans (others topic same).2.symm)
  · obtain ⟨member, apart⟩ := List.mem_filter.mp member
    have apart : topic ≠ p.topic := by simpa using apart
    obtain ⟨none, some⟩ := tracks.gone topic member
    exact ⟨(others topic apart).2.trans none, (still topic apart).symm ▸ some⟩

theorem Tracks.set (tracks : mirror.Tracks lost) (opened : mirror.storage.closed = false)
    (p : Publish) : (mirror.step (.set p)).Tracks (lost.filter (· ≠ p.topic)) := by
  obtain ⟨storage, done, _, entries⟩ := set_succeeds opened mirror.kept p
  have messages := get?_set opened mirror.kept p
  have taken : mirror.step (.set p) =
      { kept := (mirror.kept.set mirror.storage p).1, storage } := by
    simp only [Mirror.step, done]
    rfl
  rw [taken]
  cases empty : p.payload.isEmpty with
  | true =>
      rw [empty, if_pos rfl] at entries
      have increasing : storage.entries.Increasing := entries ▸ tracks.increasing.erase _
      have labeled : Labeled storage.entries := entries ▸ tracks.labeled.erase _
      refine tracks.stored increasing labeled ?_ fun topic apart => ?_
      · rw [get?_recovered increasing labeled, entries, Table.get?_erase, if_pos rfl, messages,
          if_pos rfl, empty]
        rfl
      · rw [entries, Table.get?_erase, if_neg fun same => apart (key_injective same), messages,
          if_neg apart]
        exact ⟨rfl, rfl⟩
  | false =>
      rw [empty, if_neg Bool.false_ne_true] at entries
      have increasing : storage.entries.Increasing := entries ▸ tracks.increasing.insert _ _
      have labeled : Labeled storage.entries := entries ▸ tracks.labeled.insert _ _
      refine tracks.stored increasing labeled ?_ fun topic apart => ?_
      · rw [get?_recovered increasing labeled, entries, Table.get?_insert, if_pos rfl,
          Option.bind_some, record?_record, messages, if_pos rfl, empty]
        rfl
      · rw [entries, Table.get?_insert, if_neg fun same => apart (key_injective same), messages,
          if_neg apart]
        exact ⟨rfl, rfl⟩

theorem Tracks.refused (tracks : mirror.Tracks lost) (closed : mirror.storage.closed = true)
    (p : Publish) : (mirror.step (.set p)).Tracks
      (if mirror.kept.Clears p then p.topic :: lost else lost) := by
  obtain ⟨e, refused⟩ := (refuses_iff mirror.kept mirror.storage p).mpr closed
  have left := set_refused refused
  have taken : mirror.step (.set p) =
      { mirror with kept := (mirror.kept.set mirror.storage p).1 } := by
    simp only [Mirror.step, refused]
    rfl
  rw [taken, left]
  by_cases clears : mirror.kept.Clears p
  · simp only [if_pos clears]
    have before : p.topic ∉ lost := by
      intro member
      have some := clears.2
      rw [Table.contains, (tracks.gone p.topic member).1] at some
      cases some
    refine ⟨tracks.increasing, tracks.labeled, fun topic found => ?_, fun topic member => ?_⟩
    · obtain ⟨apart, found⟩ := not_or.mp (mt List.mem_cons.mpr found)
      exact (tracks.agrees topic found).trans ((Table.get?_erase ..).trans (if_neg apart)).symm
    · refine ⟨?_, ?_⟩
      · rw [Table.get?_erase]
        split
        · rfl
        · rename_i apart
          exact (tracks.gone topic ((List.mem_cons.mp member).resolve_left apart)).1
      · rcases List.mem_cons.mp member with rfl | old
        · rw [show (recovered mirror.storage).get? p.topic = _ from tracks.agrees p.topic before]
          exact clears.2
        · exact (tracks.gone topic old).2
  · simp only [if_neg clears]
    exact tracks

theorem Tracks.step (tracks : mirror.Tracks lost) (act : Act) :
    (mirror.step act).Tracks (mirror.loses lost act) := by
  cases act with
  | set p =>
      unfold loses
      cases closed : mirror.storage.closed with
      | true => exact tracks.refused closed p
      | false => exact tracks.set closed p
  | close => exact ⟨tracks.increasing, tracks.labeled, tracks.agrees, tracks.gone⟩
  | reopen => exact ⟨tracks.increasing, tracks.labeled, tracks.agrees, tracks.gone⟩

theorem tracks_loaded {storage : Storage.Memory} (increasing : storage.entries.Increasing)
    (labeled : Labeled storage.entries) {kept : RetainStore}
    (loaded : kept.messages = recovered storage) : Tracks { kept, storage } [] where
  increasing := increasing
  labeled := labeled
  agrees topic _ := by rw [Agrees, loaded]
  gone _ member := nomatch member

/-- After any acts memory and storage agree on all topics but those that got lost. -/
theorem Tracks.run (tracks : mirror.Tracks lost) (acts : List Act) (topic : String) :
    (mirror.run acts).Agrees topic ↔ topic ∉ mirror.losesAll lost acts := by
  suffices later : (mirror.run acts).Tracks (mirror.losesAll lost acts) from later.agrees_iff topic
  induction acts generalizing mirror lost with
  | nil => exact tracks
  | cons act rest ih => exact ih (tracks.step act)

theorem run_agrees (acts : List Act) (topic : String) :
    (run { kept := {}, storage := {} } acts).Agrees topic ↔
      topic ∉ losesAll { kept := {}, storage := {} } [] acts := by
  have increasing : ({} : Storage.Memory).entries.Increasing := List.Pairwise.nil
  have labeled : Labeled ({} : Storage.Memory).entries := fun _ member => by cases member
  exact (tracks_loaded increasing labeled rfl).run acts topic

example : losesAll { kept := {}, storage := {} } []
    [.set letter, .set { letter with topic := "b" }, .close, .set { letter with payload := [] },
      .set { letter with topic := "b", payload := [] }, .reopen, .set letter] = ["b"] := by
  decide +kernel

end Mirror

end MqttBroker
