import MqttBroker.Proofs.InMemory
import MqttBroker.Proofs.OnDisk

/-!
Storage of either kind answers its clients alike: as the contents say that it holds.
-/

namespace MqttBroker.Storage

def Holds (s : Storage) (c : Contents) (current : String → Option Handle) : Prop :=
  match s with
  | .memory m => m.Holds c current
  | .disk d => d.Holds c current

section Holds

variable {s : Storage} {c : Contents} {current : String → Option Handle} {log : String → List Record}

theorem Holds.bucket (holds : s.Holds c current) (logged : c.Logged log)
    (unlocked : c.closed = false) (name : String) :
    ∃ s' h current', s.bucket name = .ok (s', h) ∧
      s'.Holds (c.set name (some ((c.buckets name).getD { name }))) current' ∧
      current' name = some h ∧ ∀ other k, current other = some k → current' other = some k := by
  cases s with
  | memory m =>
      have holds : m.Holds c current := holds
      obtain ⟨m', h, current', opened, after⟩ := holds.bucket unlocked name
      exact ⟨.memory m', h, current', by rw [Storage.bucket, opened]; rfl, after⟩
  | disk d =>
      have holds : d.Holds c current := holds
      obtain ⟨d', h, current', opened, after⟩ := holds.bucket unlocked (logged.opened name)
      exact ⟨.disk d', h, current', by rw [Storage.bucket, opened]; rfl, after⟩

theorem Holds.perform (holds : s.Holds c current) (logged : c.Logged log) {name : String}
    {h : Handle} (held : current name = some h) (r : BucketRequest) :
    ∃ b s', c.buckets name = some b ∧ s.perform h r = (s', (b.perform r).2) ∧
      s'.Holds (c.set name (b.perform r).1) (r.leaves name current) := by
  cases s with
  | memory m =>
      have holds : m.Holds c current := holds
      obtain ⟨b, here⟩ := holds.held held
      obtain ⟨m', done, after⟩ := holds.perform held here r
      exact ⟨b, .memory m', here, done, after⟩
  | disk d =>
      have holds : d.Holds c current := holds
      obtain ⟨b, _, here, _⟩ := holds.opened name h held
      obtain ⟨d', done, after⟩ := holds.perform held here (logged.logs here).ordered r
      exact ⟨b, .disk d', here, done, after⟩

theorem Holds.setEntry (holds : s.Holds c current) (unlocked : c.closed = false) (key : String)
    (value : Bytes) : ∃ s', s.setEntry key value = .ok s' ∧
      s'.Holds { c with entries := c.entries.insert key value } current := by
  cases s with
  | memory m =>
      have holds : m.Holds c current := holds
      obtain ⟨m', done, after⟩ := holds.setEntry unlocked key value
      exact ⟨.memory m', by rw [Storage.setEntry, done]; rfl, after⟩
  | disk d =>
      have holds : d.Holds c current := holds
      obtain ⟨d', done, after⟩ := holds.setEntry unlocked key value
      exact ⟨.disk d', by rw [Storage.setEntry, done]; rfl, after⟩

theorem Holds.deleteEntry (holds : s.Holds c current) (unlocked : c.closed = false) (key : String) :
    ∃ s', s.deleteEntry key = .ok s' ∧
      s'.Holds { c with entries := c.entries.erase key } current := by
  cases s with
  | memory m =>
      have holds : m.Holds c current := holds
      obtain ⟨m', done, after⟩ := holds.deleteEntry unlocked key
      exact ⟨.memory m', by rw [Storage.deleteEntry, done]; rfl, after⟩
  | disk d =>
      have holds : d.Holds c current := holds
      obtain ⟨d', done, after⟩ := holds.deleteEntry unlocked key
      exact ⟨.disk d', by rw [Storage.deleteEntry, done]; rfl, after⟩

theorem Holds.getEntry (holds : s.Holds c current) (unlocked : c.closed = false) (key : String) :
    s.getEntry key = .ok (c.entries.get? key) := by
  cases s with
  | memory m => exact Memory.Holds.getEntry holds unlocked key
  | disk d => exact Disk.Holds.getEntry holds unlocked key

theorem Holds.entriesUnder (holds : s.Holds c current) (unlocked : c.closed = false)
    (start : String) :
    s.entriesUnder start = .ok (c.entries.filter fun e => Text.startsWith start e.1) := by
  cases s with
  | memory m => exact Memory.Holds.entriesUnder holds unlocked start
  | disk d => exact Disk.Holds.entriesUnder holds unlocked start

theorem Holds.close (holds : s.Holds c current) : s.close.Holds { c with closed := true } current := by
  cases s with
  | memory m => exact Memory.Holds.locked holds true
  | disk d => exact Disk.Holds.close holds

theorem Holds.restart (holds : s.Holds c current) :
    ∃ current', s.restart.Holds { c with closed := false } current' := by
  cases s with
  | memory m => exact ⟨current, (Memory.Holds.locked holds true).locked false⟩
  | disk d => exact ⟨_, (Disk.Holds.close holds).restart⟩

structure Refuses (s : Storage) : Prop where
  bucket : ∀ name, s.bucket name = .error .closed
  setEntry : ∀ key value, s.setEntry key value = .error .closed
  getEntry : ∀ key, s.getEntry key = .error .closed
  deleteEntry : ∀ key, s.deleteEntry key = .error .closed
  entriesUnder : ∀ start, s.entriesUnder start = .error .closed

theorem Holds.refuses (holds : s.Holds c current) (locked : c.closed = true) : s.Refuses := by
  cases s with
  | memory m =>
      have refused : m.checkOpen = .error .closed := by
        rw [Memory.checkOpen, Memory.Holds.closed holds, locked]
        rfl
      constructor <;> intros
      all_goals
        simp only [Storage.bucket, Storage.setEntry, Storage.getEntry, Storage.deleteEntry,
          Storage.entriesUnder, Memory.bucket, Memory.setEntry, Memory.getEntry,
          Memory.deleteEntry, Memory.entriesUnder, refused]
        rfl
  | disk d =>
      have refused : d.checkOpen = .error .closed := by
        rw [Disk.checkOpen, Disk.Holds.closed holds, locked]
        rfl
      constructor <;> intros
      all_goals
        simp only [Storage.bucket, Storage.setEntry, Storage.getEntry, Storage.deleteEntry,
          Storage.entriesUnder, Disk.bucket, Disk.setEntry, Disk.getEntry, Disk.deleteEntry,
          Disk.entriesUnder, refused]
        rfl

end Holds

/-! What a client holds -/

/-- A client holds the buckets that are open under the names it may use. -/
structure Slots (u : Usage) (handles : List Handle) (current : String → Option Handle) : Prop where
  length : handles.length = u.held.length
  current : ∀ slot name, u.name? slot = some name → ∃ h, handles[slot]? = some h ∧
    current name = some h

section Slots

variable {u : Usage} {handles : List Handle} {current current' : String → Option Handle}
  {name : String} {h : Handle}

theorem Slots.opened (slots : Slots u handles current) (held : current' name = some h)
    (kept : ∀ other k, current other = some k → current' other = some k) :
    Slots { u with held := u.held ++ [some name] } (handles ++ [h]) current' where
  length := by rw [List.length_append, List.length_append, slots.length]; rfl
  current := by
    intro slot other used
    rw [Usage.name?] at used
    by_cases old : slot < u.held.length
    · rw [List.getElem?_append_left old] at used
      obtain ⟨k, found, open_⟩ := slots.current slot other used
      refine ⟨k, ?_, kept other k open_⟩
      rw [List.getElem?_append_left (slots.length ▸ old)]
      exact found
    · rw [List.getElem?_append_right (Nat.le_of_not_lt old)] at used
      rw [List.getElem?_append_right (slots.length ▸ Nat.le_of_not_lt old), slots.length]
      cases place : slot - u.held.length with
      | zero =>
          rw [place] at used
          cases used
          exact ⟨h, rfl, held⟩
      | succ n =>
          rw [place] at used
          cases used

theorem Slots.left (slots : Slots u handles current) {slot : Nat} (used : u.name? slot = some name)
    (r : BucketRequest) :
    Slots (u.after (.onBucket slot r)) handles (r.leaves name current) := by
  cases r with
  | close clean =>
      cases clean with
      | false => exact slots
      | true =>
          constructor
          · rw [slots.length, Usage.after, List.length_map]
          · intro slot' other used'
            rw [Usage.name?, Usage.after, List.getElem?_map, Option.join_eq_some_iff,
              Option.map_eq_some_iff] at used'
            obtain ⟨held, there, left⟩ := used'
            by_cases dropped : held = u.name? slot
            · rw [if_pos dropped] at left
              cases left
            · rw [if_neg dropped] at left
              have used' : u.name? slot' = some other := by rw [Usage.name?, there, left]; rfl
              have elsewhere : other ≠ name := by
                rintro rfl
                exact dropped (left.trans used.symm)
              simp only [BucketRequest.leaves, if_neg elsewhere]
              exact slots.current slot' other used'
  | _ => exact slots

theorem Slots.reopened (slots : Slots u handles current) (current' : String → Option Handle) :
    Slots (u.after .reopen) handles current' where
  length := by rw [slots.length, Usage.after, List.length_map]
  current := by
    intro slot name used
    rw [Usage.name?, Usage.after, List.getElem?_map, Option.join_eq_some_iff,
      Option.map_eq_some_iff] at used
    obtain ⟨_, _, none⟩ := used
    cases none

end Slots

namespace Client

def Meets (client : Client) (c : Contents) (u : Usage) : Prop :=
  u.closed = c.closed ∧
    ∃ current, client.storage.Holds c current ∧ Slots u client.handles current

section Meets

variable {client : Client} {c : Contents} {u : Usage} {log : String → List Record}

theorem Meets.used (meets : client.Meets c u) (logged : c.Logged log) {slot : Nat} {name : String}
    (used : u.name? slot = some name) (r : BucketRequest) :
    ∃ b, c.buckets name = some b ∧ (client.ask (.onBucket slot r)).2 = (b.perform r).2 ∧
      (client.ask (.onBucket slot r)).1.Meets (c.set name (b.perform r).1)
        (u.after (.onBucket slot r)) := by
  obtain ⟨closed, current, holds, slots⟩ := meets
  obtain ⟨h, handle, held⟩ := slots.current slot name used
  obtain ⟨b, s', here, done, after⟩ := holds.perform logged held r
  have asked : client.ask (.onBucket slot r) = ({ client with storage := s' }, (b.perform r).2) := by
    simp only [ask, handle, done]
  have same : (u.after (.onBucket slot r)).closed = u.closed := by
    cases r with
    | close clean => cases clean <;> rfl
    | _ => rfl
  rw [asked]
  exact ⟨b, here, rfl, same.trans closed, _, after, slots.left used r⟩

theorem Meets.ask (meets : client.Meets c u) (logged : c.Logged log) {r : Request}
    (permitted : u.permits r = true) :
    (client.ask r).2 = (c.ask u r).2 ∧ (client.ask r).1.Meets (c.ask u r).1 (u.after r) := by
  cases r with
  | onBucket slot r =>
      obtain ⟨name, used⟩ := Option.isSome_iff_exists.mp permitted
      obtain ⟨b, here, answered, after⟩ := meets.used logged used r
      rw [Contents.ask_held used here]
      exact ⟨answered, after⟩
  | bucket name =>
      obtain ⟨closed, current, holds, slots⟩ := meets
      by_cases locked : c.closed = true
      · simp only [Client.ask, Contents.ask, Usage.after, (holds.refuses locked).bucket, closed,
          if_pos locked]
        exact ⟨trivial, closed, current, holds, slots⟩
      · have unlocked := Bool.eq_false_iff.mpr locked
        obtain ⟨s', h, current', opened, after, held, kept⟩ := holds.bucket logged unlocked name
        simp only [Client.ask, Contents.ask, Usage.after, opened, closed, if_neg locked]
        exact ⟨trivial, rfl, current', after, closed ▸ slots.opened held kept⟩
  | setEntry key value =>
      obtain ⟨closed, current, holds, slots⟩ := meets
      by_cases locked : c.closed = true
      · simp only [Client.ask, Contents.ask, (holds.refuses locked).setEntry, if_pos locked]
        exact ⟨trivial, closed, current, holds, slots⟩
      · obtain ⟨s', done, after⟩ := holds.setEntry (Bool.eq_false_iff.mpr locked) key value
        simp only [Client.ask, Contents.ask, done, if_neg locked]
        exact ⟨trivial, closed, current, after, slots⟩
  | deleteEntry key =>
      obtain ⟨closed, current, holds, slots⟩ := meets
      by_cases locked : c.closed = true
      · simp only [Client.ask, Contents.ask, (holds.refuses locked).deleteEntry, if_pos locked]
        exact ⟨trivial, closed, current, holds, slots⟩
      · obtain ⟨s', done, after⟩ := holds.deleteEntry (Bool.eq_false_iff.mpr locked) key
        simp only [Client.ask, Contents.ask, done, if_neg locked]
        exact ⟨trivial, closed, current, after, slots⟩
  | getEntry key =>
      refine ⟨?_, meets⟩
      obtain ⟨_, current, holds, _⟩ := meets
      cases locked : c.closed with
      | true => simp only [Client.ask, Contents.ask, (holds.refuses locked).getEntry, locked]; rfl
      | false => simp only [Client.ask, Contents.ask, holds.getEntry locked, locked]; rfl
  | entriesUnder start =>
      refine ⟨?_, meets⟩
      obtain ⟨_, current, holds, _⟩ := meets
      cases locked : c.closed with
      | true => simp only [Client.ask, Contents.ask, (holds.refuses locked).entriesUnder, locked]; rfl
      | false => simp only [Client.ask, Contents.ask, holds.entriesUnder locked, locked]; rfl
  | close =>
      obtain ⟨_, current, holds, slots⟩ := meets
      exact ⟨rfl, rfl, current, holds.close, slots.length, slots.current⟩
  | reopen =>
      obtain ⟨_, current, holds, slots⟩ := meets
      obtain ⟨current', after⟩ := holds.restart
      exact ⟨rfl, rfl, current', after, slots.reopened current'⟩

theorem Meets.askAll (meets : client.Meets c u) (logged : c.Logged log) {requests : List Request}
    (permitted : u.permitsAll requests = true) :
    (client.askAll requests).2 = (c.askAll u requests).2 ∧
      (client.askAll requests).1.Meets (c.askAll u requests).1 (u.afterAll requests) ∧
      (c.askAll u requests).1.Logged (u.recordAll log requests (c.askAll u requests).2) := by
  induction requests generalizing client c u log with
  | nil => exact ⟨rfl, meets, logged⟩
  | cons r rest ih =>
      obtain ⟨first, later⟩ := (Bool.and_eq_true ..).mp permitted
      obtain ⟨answered, after⟩ := meets.ask logged first
      obtain ⟨answers, met, kept⟩ := ih after (logged.ask u r) later
      refine ⟨?_, met, kept⟩
      simp only [Client.askAll, Contents.askAll, answered, answers]

end Meets

/-- What is appended to a bucket gets offsets above all that were given before, and what is read from
it comes in the order in which it was appended. -/
structure Sequential (client : Client) (u : Usage) (log : String → List Record) : Prop where
  put : ∀ slot name time batch, u.name? slot = some name → ∃ offsets,
    (client.ask (.onBucket slot (.put time batch))).2 = .offsets offsets ∧
      offsets.length = batch.length ∧
      ((log name).map Record.offset ++ offsets).Pairwise (· < ·)
  get : ∀ slot name offset limit, u.name? slot = some name → ∃ records,
    (client.ask (.onBucket slot (.get offset limit))).2 = .records records ∧
      records.Sublist (log name)

theorem Meets.sequential {client : Client} {c : Contents} {u : Usage} {log : String → List Record}
    (meets : client.Meets c u) (logged : c.Logged log) : client.Sequential u log := by
  constructor
  · intro slot name time batch used
    obtain ⟨b, here, answered, _⟩ := meets.used logged used (.put time batch)
    have logs := logged.logs here
    refine ⟨_, answered, List.length_range', List.pairwise_append.mpr ⟨?_, ?_, ?_⟩⟩
    · exact List.pairwise_map.mpr logs.increasing
    · exact List.pairwise_lt_range'
    · intro offset old offset' new
      obtain ⟨r, member, rfl⟩ := List.mem_map.mp old
      exact Nat.lt_of_lt_of_le (logs.below r member) (List.mem_range'_1.mp new).1
  · intro slot name offset limit used
    obtain ⟨b, here, answered, _⟩ := meets.used logged used (.get offset limit)
    have read : (b.get offset limit).Sublist b.records :=
      (List.take_sublist ..).trans List.filter_sublist
    exact ⟨_, answered, read.trans (logged.logs here).kept⟩

theorem openNew_meets {s : StorageSettings} {storage : Storage} (opened : openNew s = .ok storage) :
    Meets { storage } {} {} := by
  have slots : Slots {} [] fun _ => none := ⟨rfl, fun slot name used => nomatch used⟩
  unfold openNew at opened
  split at opened
  · cases opened
    exact ⟨rfl, _, Memory.holds_empty, slots⟩
  · unfold Disk.openAt at opened
    split at opened
    · cases opened
    · cases opened
      exact ⟨rfl, _, Disk.holds_empty, slots⟩

/-- A client that does not use a bucket after it was closed clean or the storage opened again gets the
same answers from memory and from disk. Offsets increase from append to append, also after all records
were deleted and the storage opened again, and records are read in the order of the appends. -/
theorem backends_agree {s s' : StorageSettings} (memory : s.kind = .memory) (disk : s'.kind = .disk)
    (path : s'.path ≠ "") {requests : List Request}
    (permitted : ({} : Usage).permitsAll requests = true) :
    ∃ first second, openNew s = .ok first ∧ openNew s' = .ok second ∧
      (askAll { storage := first } requests).2 = (askAll { storage := second } requests).2 ∧
      ∀ storage ∈ [first, second],
        (askAll { storage } requests).1.Sequential (({} : Usage).afterAll requests)
          (({} : Usage).recordAll (fun _ => []) requests (askAll { storage } requests).2) := by
  have opened : openNew s = .ok (.memory {}) := by rw [openNew, memory]
  have opened' : openNew s' = .ok (.disk {}) := by
    rw [openNew, disk]
    simp only [Disk.openAt, if_neg path]
    rfl
  obtain ⟨answers, met, logged⟩ := (openNew_meets opened).askAll .empty permitted
  obtain ⟨answers', met', _⟩ := (openNew_meets opened').askAll .empty permitted
  refine ⟨_, _, opened, opened', answers.trans answers'.symm, ?_⟩
  intro storage either
  rcases List.mem_cons.mp either with rfl | second
  · exact answers ▸ met.sequential logged
  · obtain rfl := List.mem_singleton.mp second
    exact answers' ▸ met'.sequential logged

def reopenedEmpty : List Request :=
  [.bucket "queue/c", .onBucket 0 (.put 5 [[1], [2]]), .onBucket 0 (.deleteBelow 3),
   .setEntry "session/c" [7], .close, .bucket "queue/c", .reopen, .bucket "queue/c",
   .onBucket 1 (.put 6 [[3]]), .onBucket 1 (.get 0 10), .entriesUnder "session/"]

theorem reopenedEmpty_goes_on : ∃ first second,
    openNew { kind := .memory } = .ok first ∧ openNew { kind := .disk } = .ok second ∧
      ∀ storage ∈ [first, second], (askAll { storage } reopenedEmpty).2 =
        [.done, .offsets [1, 2], .count 2, .done, .done, .failed .closed, .done, .done,
         .offsets [3], .records [{ offset := 3, time := 6, data := [3] }],
         .entries [("session/c", [7])]] := by
  have memory : ({ kind := .memory } : StorageSettings).kind = .memory := rfl
  have disk : ({ kind := .disk } : StorageSettings).kind = .disk := rfl
  have permitted : ({} : Usage).permitsAll reopenedEmpty = true := by decide
  obtain ⟨first, second, opened, opened', same, _⟩ :=
    backends_agree memory disk (by decide) permitted
  cases opened
  refine ⟨_, second, rfl, opened', ?_⟩
  intro storage either
  rcases List.mem_cons.mp either with rfl | other
  · rfl
  · obtain rfl := List.mem_singleton.mp other
    exact same.symm.trans rfl

end Client

end MqttBroker.Storage
