import MqttBroker.Access.Permission
import MqttBroker.Arithmetic
import MqttBroker.Json.Form
import MqttBroker.Json.Reader

/-!
The JSON form of what is kept in storage: session records and retained messages; and of topics.
-/

namespace MqttBroker

structure SessionInfo where
  id : String
  cleanSession : Bool
  subscriptions : Table String QoS := []
  will : Option LastWill := none
  principal : Option Principal := none

structure RetainedRecord where
  topic : String
  message : Publish

namespace Codec.Json

open JsonValue

def ofQoS (q : QoS) : JsonValue := .string q.name

def toQoS? (v : JsonValue) : Option QoS := do
  let (name, held) ← v.variant?
  if holdsNothing held then QoS.ofName? name else none

def ofLastWill (w : LastWill) : JsonValue :=
  .object [("qos", ofQoS w.qos), ("retain", .bool w.retain), ("topic", .string w.topic),
    ("message", ofBytes w.message)]

def toLastWill? (v : JsonValue) : Option LastWill := do
  match ← v.record? ["qos", "retain", "topic", "message"] 4 with
  | [some qos, some retain, some topic, some message] =>
    return { qos := ← toQoS? qos, retain := ← retain.asBool?, topic := ← topic.asString?,
             message := ← message.asBytes? }
  | _ => none

def ofPrincipal : Principal → JsonValue
  | .account name => .object [("Account", .string name)]
  | .certificate name => .object [("Certificate", .string name)]
  | .anonymous => .string "Anonymous"
  | .internal => .string "Internal"

def toPrincipal? (v : JsonValue) : Option Principal := do
  match ← v.variant? with
  | ("Account", some name) => return .account (← name.asString?)
  | ("Certificate", some name) => return .certificate (← name.asString?)
  | ("Anonymous", held) => if holdsNothing held then some .anonymous else none
  | ("Internal", held) => if holdsNothing held then some .internal else none
  | _ => none

def ofSubscriptions (t : Table String QoS) : JsonValue :=
  .object (t.map fun (filter, qos) => (filter, ofQoS qos))

/-- Of subscriptions to one filter the last counts. -/
def toSubscriptions? : JsonValue → Option (Table String QoS)
  | .object fields => do
    let entries ← fields.mapM fun (filter, v) => do
      let qos ← toQoS? v
      return (filter, qos)
    return Table.ofList entries
  | _ => none

def ofSession (s : SessionInfo) : JsonValue :=
  .object [("id", .string s.id), ("clean_session", .bool s.cleanSession),
    ("subscriptions", ofSubscriptions s.subscriptions),
    ("will", ofOption ofLastWill s.will), ("principal", ofOption ofPrincipal s.principal)]

def toSession? (v : JsonValue) : Option SessionInfo := do
  match ← v.record? ["id", "clean_session", "subscriptions", "will", "principal"] 2 with
  | [some id, some clean, subscriptions, will, principal] =>
    return { id := ← id.asString?, cleanSession := ← clean.asBool?
             subscriptions := ← (match subscriptions with
               | none => some []
               | some v => toSubscriptions? v)
             will := ← asOption? toLastWill? (will.getD .null)
             principal := ← asOption? toPrincipal? (principal.getD .null) }
  | _ => none

def toPacketId? (v : JsonValue) : Option PacketId := do
  let n ← v.asInt?
  if 0 < n then PacketId.ofNat? n.toNat else none

def toTime? (v : JsonValue) : Option Int64 := do
  let n ← v.asInt?
  if SignedWord.inRange n then some (Int64.ofInt n) else none

def ofPublish (p : Publish) : JsonValue :=
  .object [("dup", .bool p.dup), ("retain", .bool p.retain), ("qos", ofQoS p.qos),
    ("topic", .string p.topic), ("packet_id", ofOption (fun id => .integer id.val) p.packetId),
    ("payload", ofBytes p.payload),
    ("create_time", ofOption (fun t => .integer t.toInt) p.createTime)]

def toPublish? (v : JsonValue) : Option Publish := do
  match ← v.record? ["dup", "retain", "qos", "topic", "packet_id", "payload", "create_time"] 7 with
  | [some dup, some retain, some qos, some topic, packetId, some payload, createTime] =>
    return { dup := ← dup.asBool?, retain := ← retain.asBool?, qos := ← toQoS? qos
             topic := ← topic.asString?
             packetId := ← asOption? toPacketId? (packetId.getD .null)
             payload := ← payload.asBytes?
             createTime := ← asOption? toTime? (createTime.getD .null) }
  | _ => none

def ofRetained (r : RetainedRecord) : JsonValue :=
  .object [("topic", .string r.topic), ("message", ofPublish r.message)]

def toRetained? (v : JsonValue) : Option RetainedRecord := do
  match ← v.record? ["topic", "message"] 2 with
  | [some topic, some message] =>
    return { topic := ← topic.asString?, message := ← toPublish? message }
  | _ => none

def ofLevel : Level → JsonValue
  | .normal text => .object [("Normal", .string text)]
  | .metadata text => .object [("Metadata", .string text)]
  | .blank => .string "Blank"
  | .single => .string "SingleWildcard"
  | .multi => .string "MultiWildcard"

def toLevel? (v : JsonValue) : Option Level := do
  match ← v.variant? with
  | ("Normal", some text) => return .normal (← text.asString?)
  | ("Metadata", some text) => return .metadata (← text.asString?)
  | ("Blank", held) => if holdsNothing held then some .blank else none
  | ("SingleWildcard", held) => if holdsNothing held then some .single else none
  | ("MultiWildcard", held) => if holdsNothing held then some .multi else none
  | _ => none

def ofTopic (t : Topic) : JsonValue := .array (t.levels.map ofLevel)

def toTopic? : JsonValue → Option Topic
  | .array items => (items.mapM toLevel?).map Topic.mk
  | _ => none

def store (v : JsonValue) : Bytes := utf8 v.text

def load? {α : Type} (read : JsonValue → Option α) (bytes : Bytes) : Option α := do
  let text ← utf8? bytes
  let value ← JsonValue.read? text
  read value

end Codec.Json

end MqttBroker
