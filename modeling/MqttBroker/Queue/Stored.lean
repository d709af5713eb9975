import MqttBroker.Queue.Durable
import MqttBroker.Storage.Memory

/-!
Durable queues at work on a bucket in storage.
-/

namespace MqttBroker

structure StoredQueue (τ : Type) where
  handle : Storage.Handle
  queue : DurableQueue τ

structure QueueWork (τ : Type) where
  queue : StoredQueue τ
  memory : Storage.Memory
  done : List τ := []
  refused : List τ := []

namespace StoredQueue

variable {τ : Type}

open Storage (Memory)

def openOver (m : Memory) (name : String) (options : QueueOptions) (outCapacity now : Nat) :
    Except StorageError (Memory × StoredQueue τ) := do
  let (m, handle) ← m.bucket name
  return (m, { handle, queue := DurableQueue.new options outCapacity now })

def push (s : StoredQueue τ) (ticket : τ) (p : Publish) : Option (StoredQueue τ) :=
  (s.queue.push ticket p).map fun queue => { s with queue }

def pop (s : StoredQueue τ) : StoredQueue τ × Option StoredMessage :=
  let (queue, next) := s.queue.pop
  ({ s with queue }, next)

def acknowledge (s : StoredQueue τ) (offset : Nat) : StoredQueue τ :=
  { s with queue := s.queue.acknowledge offset }

def work (s : StoredQueue τ) (memory : Memory)
    (act : DurableQueue τ → Bucket → Bool → DurableQueue τ × Bucket × List τ) : QueueWork τ :=
  match memory.find? s.handle with
  | none => { queue := s, memory }
  | some b =>
    let (queue, b, done) := act s.queue b memory.failing
    { queue := { s with queue }, memory := memory.replace s.handle b, done }

def settle (s : StoredQueue τ) (m : Memory) (now : Nat) (time : Int64) : QueueWork τ :=
  s.work m fun q b fails => q.settle b now time fails

def tick (s : StoredQueue τ) (m : Memory) (now : Nat) (time : Int64) : QueueWork τ :=
  s.work m fun q b fails => q.tick b now time fails

def stop (s : StoredQueue τ) (memory : Memory) (time : Int64) : QueueWork τ :=
  match memory.find? s.handle with
  | none => { queue := s, memory }
  | some b =>
    let failing := memory.failing
    let (queue, b, done, refused) := s.queue.close b time failing fun _ => failing
    { queue := { s with queue }, memory := memory.replace s.handle b, done, refused }

def close (s : StoredQueue τ) (memory : Memory) (time : Int64) (clean : Bool) : QueueWork τ :=
  if s.queue.closed then { queue := s, memory }
  else
    let w := s.stop memory time
    { w with memory := w.memory.closeBucket s.handle clean }

/-- Lets time pass from `now` to `target`, timer by timer, while nothing else happens. -/
def runUntil (s : StoredQueue τ) (memory : Memory) (now target : Nat) (time : Int64) :
    QueueWork τ :=
  match s.queue.nextTimer with
  | none => { queue := s, memory }
  | some due =>
    let next := max due (now + 1)
    if target < next then { queue := s, memory }
    else
      let ticked := s.tick memory next time
      let settled := ticked.queue.settle ticked.memory next time
      let rest := runUntil settled.queue settled.memory next target time
      { rest with done := ticked.done ++ settled.done ++ rest.done }
termination_by target - now

end StoredQueue

end MqttBroker
