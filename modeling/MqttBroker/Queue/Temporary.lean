import MqttBroker.Message
import MqttBroker.Settings.Basic

/-!
Temporary queues: bounded queues in memory for messages that need no acknowledgment. A message
for a full queue makes room by the rule of the queue.
-/

namespace MqttBroker

structure TemporaryQueue where
  capacity : Nat
  overrun : Overrun
  messages : List Publish := []
  closed : Bool := false

namespace TemporaryQueue

/-- What became of a pushed message. Whoever pushed it is done with it in every case. -/
inductive Outcome
  | queued
  | overran
  | refused
deriving DecidableEq

def new (capacity : Nat) (overrun : Overrun) : TemporaryQueue :=
  { capacity := max capacity 1, overrun }

def push (q : TemporaryQueue) (p : Publish) : TemporaryQueue × Outcome :=
  if q.closed then (q, .refused)
  else if q.messages.length < q.capacity then
    ({ q with messages := q.messages ++ [p] }, .queued)
  else match q.overrun with
    | .current => (q, .overran)
    | .early => ({ q with messages := q.messages.tail ++ [p] }, .overran)

def pop (q : TemporaryQueue) : TemporaryQueue × Option Publish :=
  match q.messages with
  | [] => (q, none)
  | p :: rest => ({ q with messages := rest }, some p)

def close (q : TemporaryQueue) : TemporaryQueue := { q with messages := [], closed := true }

end TemporaryQueue

end MqttBroker
