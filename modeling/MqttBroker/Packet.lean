import MqttBroker.Message

/-!
Packets between a client and the broker.
-/

namespace MqttBroker

structure Connect where
  protocolLevel : Nat := 4
  cleanSession : Bool
  keepAlive : Nat := 0
  lastWill : Option LastWill := none
  clientId : String
  username : Option String := none
  password : Option Bytes := none

inductive ConnectReturn
  | accepted
  | unacceptableProtocolVersion
  | identifierRejected
  | serverUnavailable
  | badUserNameOrPassword
  | notAuthorized
deriving DecidableEq

def ConnectReturn.code : ConnectReturn → Nat
  | .accepted => 0
  | .unacceptableProtocolVersion => 1
  | .identifierRejected => 2
  | .serverUnavailable => 3
  | .badUserNameOrPassword => 4
  | .notAuthorized => 5

inductive SubscribeReturn
  | granted (qos : QoS)
  | refused
deriving DecidableEq

def SubscribeReturn.code : SubscribeReturn → Nat
  | .granted qos => qos.value
  | .refused => 128

inductive Packet
  | connect (c : Connect)
  | connectAck (sessionPresent : Bool) (code : ConnectReturn)
  | publish (p : Publish)
  | publishAck (id : PacketId)
  | subscribe (id : PacketId) (filters : List (String × QoS))
  | subscribeAck (id : PacketId) (status : List SubscribeReturn)
  | unsubscribe (id : PacketId) (filters : List String)
  | unsubscribeAck (id : PacketId)
  | pingRequest
  | pingResponse
  | disconnect

def Packet.kind : Packet → String
  | .connect _ => "CONNECT"
  | .connectAck _ _ => "CONNACK"
  | .publish _ => "PUBLISH"
  | .publishAck _ => "PUBACK"
  | .subscribe _ _ => "SUBSCRIBE"
  | .subscribeAck _ _ => "SUBACK"
  | .unsubscribe _ _ => "UNSUBSCRIBE"
  | .unsubscribeAck _ => "UNSUBACK"
  | .pingRequest => "PINGREQ"
  | .pingResponse => "PINGRESP"
  | .disconnect => "DISCONNECT"

end MqttBroker
