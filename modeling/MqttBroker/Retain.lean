import MqttBroker.Codec.Json
import MqttBroker.Gauge
import MqttBroker.Storage.Memory

/-!
Retained messages: the last message of each topic that was published to be kept. They are held
in memory and written to storage, one entry for each topic.
-/

namespace MqttBroker

structure RetainStore where
  namespaces : Namespaces := {}
  messages : Table String Publish := []
  gauge : Gauge := {}

namespace RetainStore

def keyStart : String := "retain/"

def key (topic : String) : String := keyStart ++ topic

def load (r : RetainStore) (m : Storage.Memory) : Except StorageError RetainStore := do
  let entries ← m.entriesUnder keyStart
  let records := entries.filterMap fun (_, data) => Codec.Json.load? Codec.Json.toRetained? data
  let messages := records.foldl (fun t r => t.insert r.topic r.message) r.messages
  return { r with messages, gauge := r.gauge.set messages.length }

/-- Keeps a message as the last of its topic; a message without payload is kept by none. Says
whether storage did as it was asked. -/
def set (r : RetainStore) (m : Storage.Memory) (p : Publish) :
    RetainStore × Except StorageError Storage.Memory :=
  if p.payload.isEmpty then
    let r := if r.messages.contains p.topic then
      { r with messages := r.messages.erase p.topic, gauge := r.gauge.decrement } else r
    (r, m.deleteEntry (key p.topic))
  else
    let message := { p with dup := false, packetId := none }
    let record := Codec.Json.ofRetained { topic := p.topic, message }
    match m.setEntry (key p.topic) (Codec.Json.store record) with
    | .error e => (r, .error e)
    | .ok m =>
      let gauge := if r.messages.contains p.topic then r.gauge else r.gauge.increment
      ({ r with messages := r.messages.insert p.topic message, gauge }, .ok m)

def select (r : RetainStore) (filter : String) : List Publish :=
  match Topic.parse filter with
  | .error _ => []
  | .ok t =>
    let space := r.namespaces.of filter
    (r.messages.filter fun (topic, _) =>
      r.namespaces.of topic = space && t.matchesName topic).map Prod.snd

end RetainStore

end MqttBroker
