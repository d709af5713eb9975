import MqttBroker.Topic.Basic

/-!
Namespaces: reserved first levels, each with traffic of its own. Every other topic is in the
common namespace.
-/

namespace MqttBroker

structure Namespaces where
  reserved : List String := []
deriving DecidableEq

namespace Namespaces

def ofList (prefixes : List String) : Namespaces := ⟨prefixes.eraseDups⟩

/-- The reserved namespace of a topic, and the topic within it. A topic of the common namespace
is left whole. -/
def split (ns : Namespaces) (topic : String) : Option String × String :=
  let (first, rest) := Text.splitOnce '/' topic
  if ns.reserved.contains first then (some first, rest.getD "") else (none, topic)

def of (ns : Namespaces) (topic : String) : Option String := (ns.split topic).1

def isSystem (ns : Namespaces) (topic : String) : Bool := (ns.of topic).isSome

end Namespaces

end MqttBroker
