import MqttBroker.Arithmetic
import MqttBroker.Codec.Binary
import MqttBroker.Queue.Offsets
import MqttBroker.Settings.Basic
import MqttBroker.Storage.Bucket

/-!
Durable queues: messages that are written to a bucket before their publisher is told, and are
deleted from it when their receiver has acknowledged them. Three activities share the bucket.
The writer collects pushed messages and appends them in batches; the reader sends the records on,
in the order of their offsets; the deleter collects acknowledged offsets and deletes them in
batches, and sweeps out what has expired.

Each activity is a set of small steps on the queue and its bucket. A step that changes the bucket
takes the present state of the bucket, and whether its writes fail now.
-/

namespace MqttBroker

structure QueueOptions where
  writeBatchSize : Nat
  writeBatchInterval : Nat
  deleteBatchSize : Nat
  deleteBatchInterval : Nat
  expirySweepInterval : Nat
  messageExpiry : Nat

def QueueOptions.ofSettings (s : MqttSettings) : QueueOptions :=
  { writeBatchSize := max s.writeBatchSize 1
    writeBatchInterval := s.writeBatchInterval
    deleteBatchSize := max s.deleteBatchSize 1
    deleteBatchInterval := s.deleteBatchInterval
    expirySweepInterval := s.expirySweepInterval
    messageExpiry := s.messageExpiryInterval }

structure StoredMessage where
  offset : Nat
  message : Publish

/-- What the reader does: it waits to be woken, passes on the records it has read, or has failed
to read and waits for the time to try again. -/
inductive Reading
  | waiting
  | passing (records : List Record)
  | retrying (due : Nat)

/-- A durable queue. Pushed messages carry a ticket by which their pusher knows them. -/
structure DurableQueue (τ : Type) where
  options : QueueOptions
  outCapacity : Nat
  /-- Messages pushed but not yet taken by the writer. The first `inboxCapacity` have been
  accepted; the pushers of the others still wait. -/
  inbox : List (τ × Publish) := []
  buffer : List (τ × Publish) := []
  writeTimer : Nat
  /-- Is there a wake-up call for the reader? At most one is kept. -/
  call : Bool := true
  cursor : Nat := 0
  reading : Reading := .waiting
  outbox : List StoredMessage := []
  acked : List Nat := []
  pending : List Nat := []
  deleteTimer : Nat
  sweepTimer : Nat
  /-- The deleter stops for good when the age limit cannot be computed. -/
  deleting : Bool := true
  closed : Bool := false

namespace DurableQueue

variable {τ : Type}

def sweepInterval (o : QueueOptions) : Nat :=
  if o.expirySweepInterval = 0 then 60000 else o.expirySweepInterval

def new (options : QueueOptions) (outCapacity now : Nat) : DurableQueue τ :=
  { options, outCapacity := max outCapacity 1
    writeTimer := now + options.writeBatchInterval
    deleteTimer := now + options.deleteBatchInterval
    sweepTimer := now + sweepInterval options }

def inboxCapacity (q : DurableQueue τ) : Nat := q.options.writeBatchSize * 2

def waiting (q : DurableQueue τ) : List τ := (q.inbox.drop q.inboxCapacity).map Prod.fst

def push (q : DurableQueue τ) (ticket : τ) (p : Publish) : Option (DurableQueue τ) :=
  if q.closed then none else some { q with inbox := q.inbox ++ [(ticket, p)] }

/-! The writer -/

def bufferFull (q : DurableQueue τ) : Bool := q.options.writeBatchSize ≤ q.buffer.length

def receive (q : DurableQueue τ) : Option (DurableQueue τ) :=
  match q.inbox with
  | [] => none
  | entry :: rest =>
    if q.bufferFull then none
    else some { q with inbox := rest, buffer := q.buffer ++ [entry] }

/-- Appends the buffered messages to the bucket. The tickets of the stored messages are done; if
the write fails, all stay in the buffer. -/
def store (q : DurableQueue τ) (b : Bucket) (time : Int64) (fails : Bool) :
    DurableQueue τ × Bucket × List τ :=
  if q.buffer.isEmpty || fails then (q, b, [])
  else
    let (b, _) := b.put time (q.buffer.map fun entry => Codec.Binary.encode entry.2)
    ({ q with buffer := [] }, b, q.buffer.map Prod.fst)

def callReader (q : DurableQueue τ) : DurableQueue τ := { q with call := true }

def flush (q : DurableQueue τ) (b : Bucket) (time : Int64) (fails : Bool) :
    DurableQueue τ × Bucket × List τ :=
  match q.store b time fails with
  | (q, b, []) => (q, b, [])
  | (q, b, done) => (q.callReader, b, done)

def writeTick (q : DurableQueue τ) (b : Bucket) (now : Nat) (time : Int64) (fails : Bool) :
    DurableQueue τ × Bucket × List τ :=
  let (q, b, done) := q.flush b time fails
  ({ q with writeTimer := now + q.options.writeBatchInterval }, b, done)

def writeNext (q : DurableQueue τ) (b : Bucket) (now : Nat) (time : Int64) (fails : Bool) :
    Option (DurableQueue τ × Bucket × List τ) :=
  q.receive.map fun q => if q.bufferFull then q.writeTick b now time fails else (q, b, [])

/-! The reader -/

def wake (q : DurableQueue τ) (b : Bucket) (now : Nat) (fails : Bool) : DurableQueue τ :=
  let q := { q with call := false }
  if fails then { q with reading := .retrying (now + q.options.writeBatchInterval) }
  else match b.get q.cursor q.options.writeBatchSize with
    | [] => q
    | records => { q with reading := .passing records }

/-- The reader passes on the first record it holds, if there is room. A record that holds no
message counts as acknowledged. After the last record the reader calls itself again. -/
def passOn (q : DurableQueue τ) : Option (DurableQueue τ) :=
  match q.reading with
  | .passing [] => some { q with reading := .waiting }.callReader
  | .passing (r :: rest) =>
    let read := { q with cursor := r.offset + 1, reading := .passing rest }
    match Codec.Binary.decode r.data with
    | none => some { read with acked := q.acked ++ [r.offset] }
    | some (message, _) =>
      if q.outbox.length < q.outCapacity then
        some { read with outbox := q.outbox ++ [⟨r.offset, message⟩] }
      else none
  | _ => none

def retry (q : DurableQueue τ) (now : Nat) : Option (DurableQueue τ) :=
  match q.reading with
  | .retrying due =>
    if due ≤ now then some { q with reading := .waiting }.callReader else none
  | _ => none

def readNext (q : DurableQueue τ) (b : Bucket) (now : Nat) (fails : Bool) :
    Option (DurableQueue τ) :=
  match q.reading with
  | .waiting => if q.call then some (q.wake b now fails) else none
  | .passing _ => q.passOn
  | .retrying _ => q.retry now

def pop (q : DurableQueue τ) : DurableQueue τ × Option StoredMessage :=
  match q.outbox with
  | [] => (q, none)
  | d :: rest => ({ q with outbox := rest }, some d)

def acknowledge (q : DurableQueue τ) (offset : Nat) : DurableQueue τ :=
  if q.closed then q else { q with acked := q.acked ++ [offset] }

/-! The deleter -/

def deleteRuns : List (Nat × Nat) → List Nat → Bucket → (fails : Nat × Nat → Bool) →
    List Nat × Bucket
  | [], pending, b, _ => (pending, b)
  | (start, stop) :: rest, pending, b, fails =>
    if fails (start, stop) then (pending, b)
    else deleteRuns rest (Offsets.outside start stop pending) (b.deleteRange start stop).1 fails

def flushDeletes (q : DurableQueue τ) (b : Bucket) (fails : Nat × Nat → Bool) :
    DurableQueue τ × Bucket :=
  let (pending, b) := deleteRuns (Offsets.runs q.pending) q.pending b fails
  ({ q with pending }, b)

def collect (q : DurableQueue τ) : Option (DurableQueue τ) :=
  match q.acked with
  | [] => none
  | o :: rest => some { q with acked := rest, pending := Offsets.insert o q.pending }

def deleteTick (q : DurableQueue τ) (b : Bucket) (now : Nat) (fails : Nat × Nat → Bool) :
    DurableQueue τ × Bucket :=
  let (q, b) := q.flushDeletes b fails
  ({ q with deleteTimer := now + q.options.deleteBatchInterval }, b)

def deleteNext (q : DurableQueue τ) (b : Bucket) (now : Nat) (fails : Nat × Nat → Bool) :
    Option (DurableQueue τ × Bucket) :=
  q.collect.map fun q =>
    if q.options.deleteBatchSize ≤ q.pending.length then q.deleteTick b now fails else (q, b)

/-- The time before which records have expired, none if records do not expire. The age limit is
taken as a signed word. -/
def expiryLimit (expiry : Nat) (time : Int64) : Except Overflow (Option Int) :=
  if expiry = 0 then .ok none
  else (SignedWord.sub time.toInt (SignedWord.wrap expiry)).map some

/-- The time of the next sweep after one at `now`: sweeps that were missed are left out. -/
def nextSweep (q : DurableQueue τ) (now : Nat) : Nat :=
  let timer := q.sweepTimer + sweepInterval q.options
  if timer ≤ now then now + sweepInterval q.options else timer

def sweep (q : DurableQueue τ) (b : Bucket) (now : Nat) (time : Int64) (fails : Bool) :
    DurableQueue τ × Bucket :=
  let q := { q with sweepTimer := q.nextSweep now }
  match expiryLimit q.options.messageExpiry time with
  | .error _ => ({ q with deleting := false }, b)
  | .ok none => (q, b)
  | .ok (some limit) =>
    if fails then (q, b) else (q, (b.deleteBefore (Int64.ofInt limit)).1)

/-! Running -/

def runWriter : Nat → DurableQueue τ → Bucket → (now : Nat) → Int64 → (fails : Bool) →
    DurableQueue τ × Bucket × List τ
  | 0, q, b, _, _, _ => (q, b, [])
  | fuel + 1, q, b, now, time, fails =>
    match q.writeNext b now time fails with
    | none => (q, b, [])
    | some (q, b, done) =>
      let (q, b, more) := runWriter fuel q b now time fails
      (q, b, done ++ more)

def runReader : Nat → DurableQueue τ → Bucket → (now : Nat) → DurableQueue τ
  | 0, q, _, _ => q
  | fuel + 1, q, b, now =>
    match q.readNext b now false with
    | none => q
    | some q => runReader fuel q b now

def runDeleter : Nat → DurableQueue τ → Bucket → (now : Nat) → (fails : Nat × Nat → Bool) →
    DurableQueue τ × Bucket
  | 0, q, b, _, _ => (q, b)
  | fuel + 1, q, b, now, fails =>
    match q.deleteNext b now fails with
    | none => (q, b)
    | some (q, b) => runDeleter fuel q b now fails

/-- The reader passes each unread record once, and for every batch it wakes and calls itself. -/
def readerSteps (q : DurableQueue τ) (b : Bucket) : Nat :=
  let held := match q.reading with
    | .passing records => records.length
    | _ => 0
  held + 3 * b.records.length + 4

def settle (q : DurableQueue τ) (b : Bucket) (now : Nat) (time : Int64) (fails : Bool) :
    DurableQueue τ × Bucket × List τ :=
  if q.closed then (q, b, [])
  else
    let (q, b, done) := q.runWriter q.inbox.length b now time fails
    let q := q.runReader (q.readerSteps b) b now
    let (q, b) := if q.deleting then q.runDeleter q.acked.length b now fun _ => fails else (q, b)
    (q, b, done)

def nextTimer (q : DurableQueue τ) : Option Nat :=
  if q.closed then none
  else
    let timers := if q.deleting then [q.writeTimer, q.deleteTimer, q.sweepTimer] else [q.writeTimer]
    let timers := match q.reading with
      | .retrying due => due :: timers
      | _ => timers
    timers.min?

def tick (q : DurableQueue τ) (b : Bucket) (now : Nat) (time : Int64) (fails : Bool) :
    DurableQueue τ × Bucket × List τ :=
  if q.closed then (q, b, [])
  else
    let (q, b, done) :=
      if q.writeTimer ≤ now then q.writeTick b now time fails else (q, b, [])
    let (q, b) :=
      if q.deleting && q.deleteTimer ≤ now then q.deleteTick b now fun _ => fails else (q, b)
    let (q, b) :=
      if q.deleting && q.sweepTimer ≤ now then q.sweep b now time fails else (q, b)
    (q, b, done)

/-! Closing -/

/-- The writer takes all that was accepted, stores what it has, and gives up what could not be
stored. Gives the tickets of these messages, and those of the pushers that still wait. -/
def finishWriting (q : DurableQueue τ) (b : Bucket) (time : Int64) (fails : Bool) :
    DurableQueue τ × Bucket × List τ × List τ :=
  let refused := q.waiting
  let q := { q with buffer := q.buffer ++ q.inbox.take q.inboxCapacity, inbox := [] }
  let tickets := q.buffer.map Prod.fst
  let (q, b, _) := q.flush b time fails
  ({ q with buffer := [] }, b, tickets, refused)

def finishDeleting (q : DurableQueue τ) (b : Bucket) (fails : Nat × Nat → Bool) :
    DurableQueue τ × Bucket :=
  let pending := q.acked.foldl (fun set o => Offsets.insert o set) q.pending
  let q := { q with pending, acked := [] }
  if q.deleting then q.flushDeletes b fails else (q, b)

/-- Closes the queue. The writer stores what it has and what was accepted, the deleter deletes
what was acknowledged. The tickets of the accepted messages are done, those of messages that could
not be stored included. The tickets of pushers that still wait are given apart. -/
def close (q : DurableQueue τ) (b : Bucket) (time : Int64) (writeFails : Bool)
    (deleteFails : Nat × Nat → Bool) : DurableQueue τ × Bucket × List τ × List τ :=
  if q.closed then (q, b, [], [])
  else
    let (q, b, tickets, refused) := q.finishWriting b time writeFails
    let (q, b) := q.finishDeleting b deleteFails
    ({ q with closed := true, reading := .waiting, call := false }, b, tickets, refused)

end DurableQueue

end MqttBroker
