import MqttBroker.Proofs.Bucket
import MqttBroker.Storage.Basic

/-!
What clients ask of a storage, and what it is to answer whatever its kind. It holds a table of
entries, and a bucket for each name; what was appended to a bucket stays in order.
-/

namespace MqttBroker

namespace Storage

inductive BucketRequest
  | put (time : Int64) (batch : List Bytes)
  | get (offset limit : Nat)
  | deleteRange (start stop : Nat)
  | deleteBelow (stop : Nat)
  | deleteBefore (time : Int64)
  | size
  | close (clean : Bool)

def BucketRequest.leaves (name : String) (current : String → Option Handle) :
    BucketRequest → String → Option Handle
  | .close true => fun other => if other = name then none else current other
  | _ => current

/-- Buckets are meant by their number among those that were opened. -/
inductive Request
  | bucket (name : String)
  | onBucket (slot : Nat) (r : BucketRequest)
  | setEntry (key : String) (value : Bytes)
  | getEntry (key : String)
  | deleteEntry (key : String)
  | entriesUnder (start : String)
  | close
  | reopen

inductive Answer
  | done
  | failed (e : StorageError)
  | offsets (offsets : List Nat)
  | records (records : List Record)
  | count (n : Nat)
  | value (value : Option Bytes)
  | entries (entries : Table String Bytes)

def Answer.of {α : Type} (answer : α → Answer) : Except StorageError α → Answer
  | .ok a => answer a
  | .error e => .failed e

def settle {α : Type} (s : Storage) (answer : α → Answer) :
    Except StorageError (Storage × α) → Storage × Answer
  | .ok (after, a) => (after, answer a)
  | .error e => (s, .failed e)

def perform (s : Storage) (h : Handle) : BucketRequest → Storage × Answer
  | .put time batch =>
    let (after, result) := s.put h time batch
    (after, .of .offsets result)
  | .get offset limit => (s, .of .records (s.get h offset limit))
  | .deleteRange start stop => s.settle .count (s.deleteRange h start stop)
  | .deleteBelow stop => s.settle .count (s.deleteBelow h stop)
  | .deleteBefore time => s.settle .count (s.deleteBefore h time)
  | .size => (s, .of .count (s.size h))
  | .close clean => (s.closeBucket h clean, .done)

/-- A storage and the buckets that were opened from it. -/
structure Client where
  storage : Storage
  handles : List Handle := []

namespace Client

def ask (c : Client) : Request → Client × Answer
  | .bucket name =>
    match c.storage.bucket name with
    | .ok (storage, h) => ({ storage, handles := c.handles ++ [h] }, .done)
    | .error e => (c, .failed e)
  | .onBucket slot r =>
    match c.handles[slot]? with
    | none => (c, .failed .noBucket)
    | some h => ({ c with storage := (c.storage.perform h r).1 }, (c.storage.perform h r).2)
  | .setEntry key value =>
    match c.storage.setEntry key value with
    | .ok storage => ({ c with storage }, .done)
    | .error e => (c, .failed e)
  | .getEntry key => (c, .of .value (c.storage.getEntry key))
  | .deleteEntry key =>
    match c.storage.deleteEntry key with
    | .ok storage => ({ c with storage }, .done)
    | .error e => (c, .failed e)
  | .entriesUnder start => (c, .of .entries (c.storage.entriesUnder start))
  | .close => ({ c with storage := c.storage.close }, .done)
  | .reopen => ({ c with storage := c.storage.restart }, .done)

def askAll (c : Client) : List Request → Client × List Answer
  | [] => (c, [])
  | r :: rest => (((c.ask r).1.askAll rest).1, (c.ask r).2 :: ((c.ask r).1.askAll rest).2)

end Client

/-! Use -/

structure Usage where
  closed : Bool := false
  /-- The names of the buckets that were opened, none for those that must not be used any more. -/
  held : List (Option String) := []

namespace Usage

def name? (u : Usage) (slot : Nat) : Option String := u.held[slot]?.join

/-- A bucket is not used after it was closed clean, whoever closed it, nor after the storage was
opened again. -/
def permits (u : Usage) : Request → Bool
  | .onBucket slot _ => (u.name? slot).isSome
  | _ => true

def after (u : Usage) : Request → Usage
  | .bucket name => if u.closed then u else { u with held := u.held ++ [some name] }
  | .onBucket slot (.close true) =>
    { u with held := u.held.map fun name => if name = u.name? slot then none else name }
  | .close => { u with closed := true }
  | .reopen => { closed := false, held := u.held.map fun _ => none }
  | _ => u

def permitsAll (u : Usage) : List Request → Bool
  | [] => true
  | r :: rest => u.permits r && (u.after r).permitsAll rest

/-- What was appended to each bucket since it was last closed clean, as the answers tell. -/
def record (u : Usage) (log : String → List Record) : Request → Answer → String → List Record
  | .onBucket slot (.put time batch), .offsets offsets => fun name =>
    if u.name? slot = some name then
      log name ++ (offsets.zip batch).map fun (offset, data) => { offset, time, data }
    else log name
  | .onBucket slot (.close true), _ => fun name =>
    if u.name? slot = some name then [] else log name
  | _, _ => log

theorem record_failed {u : Usage} {log : String → List Record} {slot : Nat} {r : BucketRequest}
    {e : StorageError} (unused : ∀ name, u.name? slot = some name → log name = []) :
    u.record log (.onBucket slot r) (.failed e) = log := by
  cases r with
  | close clean =>
      cases clean with
      | false => rfl
      | true =>
          funext name
          simp only [record]
          split
          · rename_i held
            exact (unused name held).symm
          · rfl
  | _ => rfl

def recordAll (u : Usage) (log : String → List Record) :
    List Request → List Answer → String → List Record
  | r :: rest, a :: answers => (u.after r).recordAll (u.record log r a) rest answers
  | _, _ => log

def afterAll (u : Usage) : List Request → Usage
  | [] => u
  | r :: rest => (u.after r).afterAll rest

end Usage

end Storage

open Storage

/-! What is to be answered -/

def Bucket.perform (b : Bucket) : BucketRequest → Option Bucket × Answer
  | .put time batch => (some (b.put time batch).1, .offsets (b.put time batch).2)
  | .get offset limit => (some b, .records (b.get offset limit))
  | .deleteRange start stop =>
    (some (b.deleteRange start stop).1, .count (b.deleteRange start stop).2)
  | .deleteBelow stop => (some (b.deleteRange 0 stop).1, .count (b.deleteRange 0 stop).2)
  | .deleteBefore time => (some (b.deleteBefore time).1, .count (b.deleteBefore time).2)
  | .size => (some b, .count b.records.length)
  | .close clean => (if clean then none else some b, .done)

namespace Storage

structure Contents where
  closed : Bool := false
  entries : Table String Bytes := []
  buckets : String → Option Bucket := fun _ => none

namespace Contents

def set (c : Contents) (name : String) (b : Option Bucket) : Contents :=
  { c with buckets := fun other => if other = name then b else c.buckets other }

def ask (c : Contents) (u : Usage) : Request → Contents × Answer
  | .bucket name =>
    if c.closed then (c, .failed .closed)
    else (c.set name (some ((c.buckets name).getD { name })), .done)
  | .onBucket slot r =>
    match u.name? slot with
    | none => (c, .failed .noBucket)
    | some name =>
      match c.buckets name with
      | none => (c, .failed .noBucket)
      | some b => (c.set name (b.perform r).1, (b.perform r).2)
  | .setEntry key value =>
    if c.closed then (c, .failed .closed)
    else ({ c with entries := c.entries.insert key value }, .done)
  | .getEntry key => (c, if c.closed then .failed .closed else .value (c.entries.get? key))
  | .deleteEntry key =>
    if c.closed then (c, .failed .closed)
    else ({ c with entries := c.entries.erase key }, .done)
  | .entriesUnder start =>
    (c, if c.closed then .failed .closed
        else .entries (c.entries.filter fun e => Text.startsWith start e.1))
  | .close => ({ c with closed := true }, .done)
  | .reopen => ({ c with closed := false }, .done)

def askAll (c : Contents) (u : Usage) : List Request → Contents × List Answer
  | [] => (c, [])
  | r :: rest =>
    (((c.ask u r).1.askAll (u.after r) rest).1,
     (c.ask u r).2 :: ((c.ask u r).1.askAll (u.after r) rest).2)

variable {c : Contents} {u : Usage} {slot : Nat}

theorem ask_held {name : String} {b : Bucket} (used : u.name? slot = some name)
    (here : c.buckets name = some b) (r : BucketRequest) :
    c.ask u (.onBucket slot r) = (c.set name (b.perform r).1, (b.perform r).2) := by
  simp only [ask, used, here]

theorem ask_missing (missing : ∀ name, u.name? slot = some name → c.buckets name = none)
    (r : BucketRequest) : c.ask u (.onBucket slot r) = (c, .failed .noBucket) := by
  simp only [ask]
  cases used : u.name? slot with
  | none => rfl
  | some name => simp only [missing name used]

theorem set_here (c : Contents) (name : String) (b : Option Bucket) : (c.set name b).buckets name = b :=
  if_pos rfl

theorem set_elsewhere (c : Contents) {name other : String} (b : Option Bucket)
    (apart : other ≠ name) : (c.set name b).buckets other = c.buckets other :=
  if_neg apart

theorem set_same {name : String} {b : Option Bucket} (here : c.buckets name = b) :
    c.set name b = c := by
  have buckets : (fun other => if other = name then b else c.buckets other) = c.buckets := by
    funext other
    split
    · rename_i same
      rw [same, here]
    · rfl
  rw [set, buckets]

end Contents

end Storage

namespace Bucket

structure Logs (b : Bucket) (name : String) (log : List Record) : Prop where
  own : b.name = name
  started : 1 ≤ b.next
  increasing : log.Pairwise fun r s => r.offset < s.offset
  below : ∀ r ∈ log, r.offset < b.next
  kept : b.records.Sublist log

variable {b : Bucket} {name : String} {log : List Record}

theorem Logs.ordered (logs : b.Logs name log) : b.Ordered :=
  ⟨logs.increasing.sublist logs.kept, fun r member => logs.below r (logs.kept.subset member)⟩

theorem Logs.new (name : String) : Logs { name } name [] :=
  ⟨rfl, Nat.le_refl 1, .nil, fun _ => nofun, .refl _⟩

theorem Logs.put (logs : b.Logs name log) (time : Int64) (data : List Bytes) :
    (b.put time data).1.Logs name (log ++ b.batch time data) where
  own := logs.own
  started := Nat.le_trans logs.started (Nat.le_add_right ..)
  increasing := by
    refine List.pairwise_append.mpr ⟨logs.increasing, batch_increasing b time data, ?_⟩
    intro r old s added
    exact Nat.lt_of_lt_of_le (logs.below r old) (mem_batch added).1
  below := by
    intro r member
    rcases List.mem_append.mp member with old | added
    · exact Nat.lt_of_lt_of_le (logs.below r old) (Nat.le_add_right ..)
    · exact (mem_batch added).2.1
  kept := List.Sublist.append logs.kept (List.Sublist.refl _)

theorem Logs.delete (logs : b.Logs name log) (gone : Record → Bool) :
    (b.delete gone).1.Logs name log :=
  ⟨logs.own, logs.started, logs.increasing, logs.below, List.filter_sublist.trans logs.kept⟩

end Bucket

namespace Storage

def Contents.Logged (c : Contents) (log : String → List Record) : Prop :=
  ∀ name, match c.buckets name with
    | none => log name = []
    | some b => b.Logs name (log name)

namespace Contents.Logged

variable {c : Contents} {log : String → List Record}

theorem empty : Contents.Logged {} fun _ => [] := fun _ => rfl

theorem logs (logged : c.Logged log) {name : String} {b : Bucket} (here : c.buckets name = some b) :
    b.Logs name (log name) := by
  have logs := logged name
  rwa [here] at logs

theorem unused (logged : c.Logged log) {name : String} (missing : c.buckets name = none) :
    log name = [] := by
  have empty := logged name
  rwa [missing] at empty

theorem opened (logged : c.Logged log) (name : String) :
    ((c.buckets name).getD { name }).Logs name (log name) := by
  cases here : c.buckets name with
  | none =>
      rw [logged.unused here]
      exact .new name
  | some b => exact logged.logs here

theorem of_buckets (logged : c.Logged log) {c' : Contents} (same : c'.buckets = c.buckets) :
    c'.Logged log := by
  unfold Contents.Logged
  rw [same]
  exact logged

theorem set (logged : c.Logged log) {log' : String → List Record} {name : String} {b : Option Bucket}
    (elsewhere : ∀ other, other ≠ name → log' other = log other)
    (here : match b with
      | none => log' name = []
      | some b => b.Logs name (log' name)) : (c.set name b).Logged log' := by
  intro other
  by_cases same : other = name
  · subst same
    simpa [Contents.set] using here
  · have kept := logged other
    simp only [Contents.set, if_neg same]
    rwa [elsewhere other same]

theorem perform (logged : c.Logged log) {u : Usage} {slot : Nat} {name : String} {b : Bucket}
    (used : u.name? slot = some name) (here : c.buckets name = some b) (r : BucketRequest) :
    (c.set name (b.perform r).1).Logged (u.record log (.onBucket slot r) (b.perform r).2) := by
  have logs := logged.logs here
  have elsewhere : ∀ other, other ≠ name → u.name? slot ≠ some other := by
    intro other apart same
    exact apart (Option.some.inj (same.symm.trans used))
  cases r with
  | put time batch =>
      apply logged.set
      · intro other apart
        exact if_neg (elsewhere other apart)
      · simp only [Bucket.perform, Usage.record, used, if_true]
        exact logs.put time batch
  | get offset limit => exact logged.set (fun _ _ => rfl) logs
  | deleteRange start stop => exact logged.set (fun _ _ => rfl) (logs.delete _)
  | deleteBelow stop => exact logged.set (fun _ _ => rfl) (logs.delete _)
  | deleteBefore time => exact logged.set (fun _ _ => rfl) (logs.delete _)
  | size => exact logged.set (fun _ _ => rfl) logs
  | close clean =>
      cases clean with
      | false => exact logged.set (fun _ _ => rfl) logs
      | true =>
          apply logged.set
          · intro other apart
            exact if_neg (elsewhere other apart)
          · simp only [Bucket.perform, Usage.record, used, if_true]

theorem ask (logged : c.Logged log) (u : Usage) (r : Request) :
    (c.ask u r).1.Logged (u.record log r (c.ask u r).2) := by
  cases r with
  | bucket name =>
      simp only [Contents.ask]
      split
      · exact logged
      · exact logged.set (fun _ _ => rfl) (logged.opened name)
  | onBucket slot r =>
      by_cases here : ∃ name b, u.name? slot = some name ∧ c.buckets name = some b
      · obtain ⟨name, b, used, here⟩ := here
        rw [Contents.ask_held used here]
        exact logged.perform used here r
      · have missing : ∀ name, u.name? slot = some name → c.buckets name = none := by
          intro name used
          refine Option.eq_none_iff_forall_ne_some.mpr fun b found => ?_
          exact here ⟨name, b, used, found⟩
        rw [Contents.ask_missing missing, Usage.record_failed]
        · exact logged
        · exact fun name used => logged.unused (missing name used)
  | setEntry key value =>
      simp only [Contents.ask]
      split
      · exact logged
      · exact logged.of_buckets rfl
  | deleteEntry key =>
      simp only [Contents.ask]
      split
      · exact logged
      · exact logged.of_buckets rfl
  | getEntry key => exact logged
  | entriesUnder start => exact logged
  | close => exact logged.of_buckets rfl
  | reopen => exact logged.of_buckets rfl

end Contents.Logged

end Storage

end MqttBroker
