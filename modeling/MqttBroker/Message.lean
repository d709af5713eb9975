import MqttBroker.Text.Quoted
import MqttBroker.Text.Digits

/-!
Messages: what a client publishes, with the quality of service it asks for.
-/

namespace MqttBroker

abbrev Bytes := List UInt8

def utf8 (text : String) : Bytes := text.toUTF8.data.toList

def utf8? (bytes : Bytes) : Option String := String.fromUTF8? ⟨bytes.toArray⟩

/-- Quality of service of a message: sent once without acknowledgment, sent until acknowledged,
or delivered exactly once. The last one is never granted. -/
inductive QoS
  | atMostOnce
  | atLeastOnce
  | exactlyOnce
deriving DecidableEq

namespace QoS

def value : QoS → Nat
  | .atMostOnce => 0
  | .atLeastOnce => 1
  | .exactlyOnce => 2

def ofNat? : Nat → Option QoS
  | 0 => some .atMostOnce
  | 1 => some .atLeastOnce
  | 2 => some .exactlyOnce
  | _ => none

def name : QoS → String
  | .atMostOnce => "AtMostOnce"
  | .atLeastOnce => "AtLeastOnce"
  | .exactlyOnce => "ExactlyOnce"

def ofName? (name : String) : Option QoS :=
  [atMostOnce, atLeastOnce, exactlyOnce].find? fun q => q.name = name

def isSupported : QoS → Bool
  | .exactlyOnce => false
  | _ => true

def lower (a b : QoS) : QoS := if a.value < b.value then a else b

def higher (a b : QoS) : QoS := if a.value < b.value then b else a

end QoS

structure PacketId where
  val : Nat
  pos : 0 < val
  small : val < 65536
deriving DecidableEq

namespace PacketId

def ofNat? (n : Nat) : Option PacketId :=
  if h : 0 < n ∧ n < 65536 then some ⟨n, h.1, h.2⟩ else none

def one : PacketId := ⟨1, by decide, by decide⟩

end PacketId

structure Publish where
  dup : Bool := false
  retain : Bool := false
  qos : QoS
  topic : String
  packetId : Option PacketId := none
  payload : Bytes
  createTime : Option Int64 := none
deriving DecidableEq

namespace Publish

def new (now : Int64) (topic : String) (payload : Bytes) (qos : QoS) : Publish :=
  { qos, topic, payload, createTime := some now }

def retained (p : Publish) (retain : Bool) : Publish := { p with retain }

def withPacketId (p : Publish) (id : Nat) : Publish := { p with packetId := PacketId.ofNat? id }

def describeOption : Option String → String
  | none => "None"
  | some text => "Some(" ++ text ++ ")"

def describeBool (b : Bool) : String := if b then "true" else "false"

def describe (p : Publish) : String :=
  "Publish \x7b packet_id: " ++ describeOption (p.packetId.map fun id => Text.decimal id.val) ++
  ", topic: " ++ Text.quoted p.topic ++ ", dup: " ++ describeBool p.dup ++
  ", retain: " ++ describeBool p.retain ++ ", qos: " ++ p.qos.name ++
  ", payload: \"<REDACTED>\", create_time: " ++
  describeOption (p.createTime.map fun t => Text.decimalInt t.toInt) ++ " \x7d"

end Publish

structure LastWill where
  qos : QoS
  retain : Bool
  topic : String
  message : Bytes
deriving DecidableEq

def LastWill.toPublish (w : LastWill) (now : Int64) : Publish :=
  (Publish.new now w.topic w.message w.qos).retained w.retain

end MqttBroker
