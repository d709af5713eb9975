import MqttBroker.Event
import MqttBroker.Table

/-!
Ledgers: the events under way, each under its number and with an order for what is to be done when
it is complete. An order is given out once, when its event becomes complete.
-/

namespace MqttBroker

abbrev EventId := Nat

structure Ledger (κ : Type) where
  entries : Table EventId (Event × κ) := []
  next : EventId := 0

namespace Ledger

variable {κ : Type}

/-- Enters an event for a message to so many recipients. Gives its number, and the order if there
is nobody to wait for. -/
def enter (l : Ledger κ) (message : Publish) (recipients : Nat) (order : κ) :
    Ledger κ × EventId × List κ :=
  let event := Event.new message recipients
  ({ entries := l.entries.insert l.next (event, order), next := l.next + 1 }, l.next,
   if event.armed then [] else [order])

def done (l : Ledger κ) (id : EventId) : Ledger κ × List κ :=
  match l.entries.get? id with
  | none => (l, [])
  | some (event, order) =>
    let after := event.done
    ({ l with entries := l.entries.insert id (after, order) },
     if event.armed && !after.armed then [order] else [])

def doneAll (l : Ledger κ) : List EventId → Ledger κ × List κ
  | [] => (l, [])
  | id :: rest =>
    let (l, first) := l.done id
    let (l, more) := l.doneAll rest
    (l, first ++ more)

def event? (l : Ledger κ) (id : EventId) : Option Event := (l.entries.get? id).map Prod.fst

def remaining (l : Ledger κ) (id : EventId) : Nat :=
  ((l.event? id).map Event.remaining).getD 0

def completed (l : Ledger κ) : List EventId :=
  Table.keys (l.entries.filter fun (_, event, _) => !event.armed)

end Ledger

end MqttBroker
