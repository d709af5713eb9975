import MqttBroker.Table
import MqttBroker.Topic.Namespaces
import MqttBroker.Topic.Tree

/-!
The exchange: which sessions receive a message. Every reserved namespace has a topic tree of its
own, in which filters are bound without the namespace; all other filters are in the common tree.
-/

namespace MqttBroker

abbrev SessionUid := Nat

structure Exchange where
  namespaces : Namespaces := {}
  spaces : Table String (TopicTree SessionUid) := []
  common : TopicTree SessionUid := {}

namespace Exchange

def new (namespaces : Namespaces) : Exchange := { namespaces }

def tree (x : Exchange) : Option String → TopicTree SessionUid
  | none => x.common
  | some space => (x.spaces.get? space).getD {}

def setTree (x : Exchange) (space : Option String) (t : TopicTree SessionUid) : Exchange :=
  match space with
  | none => { x with common := t }
  | some space => { x with spaces := x.spaces.insert space t }

/-- The pattern of a filter within its namespace. Nothing left after the namespace is the empty
level. -/
def pattern (rest : String) : Except TopicError Topic :=
  if rest = "" then .ok ⟨[.blank]⟩ else Topic.parse rest

def bind (x : Exchange) (filter : String) (uid : SessionUid) :
    Except TopicError (Exchange × Bool) := do
  let (space, rest) := x.namespaces.split filter
  let (t, added) := (x.tree space).insert (← pattern rest) uid
  return (x.setTree space t, added)

def unbind (x : Exchange) (filter : String) (uid : SessionUid) :
    Except TopicError (Exchange × Bool) := do
  let (space, rest) := x.namespaces.split filter
  let (t, removed) := (x.tree space).remove (← pattern rest) uid
  return (x.setTree space t, removed)

def unbindAll (x : Exchange) (uid : SessionUid) : Exchange × Nat :=
  let (common, n) := x.common.clear uid
  let cleared := x.spaces.map fun (space, t) => (space, t.clear uid)
  ({ x with common, spaces := cleared.map fun (space, t, _) => (space, t) },
   cleared.foldl (fun total (_, _, k) => total + k) n)

def recipients (x : Exchange) (topic : String) : List SessionUid :=
  let (space, rest) := x.namespaces.split topic
  (x.tree space).find rest

def size (x : Exchange) : Nat :=
  x.spaces.values.foldl (fun total t => total + t.valuesSize) x.common.valuesSize

end Exchange

end MqttBroker
