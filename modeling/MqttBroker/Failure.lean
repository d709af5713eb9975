import MqttBroker.Packet
import MqttBroker.Topic.Level

/-!
Failures: why the broker refuses a request or ends a connection.
-/

namespace MqttBroker

inductive ProtocolError
  | invalidProtocol (reason : String)
  | unsupportedVersion (level : Nat)
  | unexpectedPacket (kind : String)
  | identifierRejected
  | badUserNameOrPassword
  | notAuthorized
  | qosNotSupported (qos : QoS)
  | payloadTooLarge (bytes : Nat)
  | topic (cause : TopicError)
  | tooManySubscriptions
  | connectTimeout
  | keepaliveTimeout
  | connectionClosed
  | queueClosed
  | kicked
  | packetIdNotFound (id : PacketId)
  | serviceUnavailable
deriving DecidableEq

namespace ProtocolError

def name : ProtocolError → String
  | .invalidProtocol _ => "InvalidProtocol"
  | .unsupportedVersion _ => "UnsupportedProtocolVersion"
  | .unexpectedPacket _ => "UnexpectedPacket"
  | .identifierRejected => "IdentifierRejected"
  | .badUserNameOrPassword => "BadUserNameOrPassword"
  | .notAuthorized => "NotAuthorized"
  | .qosNotSupported _ => "QoSNotSupported"
  | .payloadTooLarge _ => "PayloadTooLarge"
  | .topic _ => "Topic"
  | .tooManySubscriptions => "TooManySubscriptions"
  | .connectTimeout => "ConnectTimeout"
  | .keepaliveTimeout => "KeepaliveTimeout"
  | .connectionClosed => "ConnectionClosed"
  | .queueClosed => "QueueClosed"
  | .kicked => "Kicked"
  | .packetIdNotFound _ => "PacketIdNotFound"
  | .serviceUnavailable => "ServiceUnavailable"

def message : ProtocolError → String
  | .invalidProtocol reason => "invalid protocol, " ++ reason
  | .unsupportedVersion level => "unsupported protocol level " ++ Text.decimal level
  | .unexpectedPacket kind => "unexpected packet " ++ kind
  | .identifierRejected => "identifier rejected"
  | .badUserNameOrPassword => "bad username or password"
  | .notAuthorized => "not authorized"
  | .qosNotSupported qos => "unsupported QoS " ++ qos.name
  | .payloadTooLarge bytes => "payload too large, " ++ Text.decimal bytes ++ " bytes"
  | .topic cause => "topic error, " ++ cause.message
  | .tooManySubscriptions => "too many subscriptions"
  | .connectTimeout => "connect timeout"
  | .keepaliveTimeout => "keepalive timeout"
  | .connectionClosed => "connection closed"
  | .queueClosed => "queue closed"
  | .kicked => "connection taken over by a new connection"
  | .packetIdNotFound id => "provided packet id " ++ Text.decimal id.val ++ " is not in flight"
  | .serviceUnavailable => "service unavailable"

def connectReturn? : ProtocolError → Option ConnectReturn
  | .unsupportedVersion _ => some .unacceptableProtocolVersion
  | .identifierRejected => some .identifierRejected
  | .badUserNameOrPassword => some .badUserNameOrPassword
  | .notAuthorized => some .notAuthorized
  | .topic _ => some .notAuthorized
  | .qosNotSupported _ => some .notAuthorized
  | .serviceUnavailable => some .serverUnavailable
  | _ => none

end ProtocolError

inductive StorageError
  | closed
  | writeFailed (bucket : String)
  | noPath
  | noBucket
  | invalidKey (bytes : Nat)
  | invalidRecord (bytes : Nat)
  | invalidText
deriving DecidableEq

def StorageError.message : StorageError → String
  | .closed => "storage is closed"
  | .writeFailed bucket => "bucket " ++ bucket ++ " write failed"
  | .noPath => "storage path is empty"
  | .noBucket => "bucket does not exist"
  | .invalidKey bytes => "invalid offset key, " ++ Text.decimal bytes ++ " bytes"
  | .invalidRecord bytes => "invalid record, " ++ Text.decimal bytes ++ " bytes"
  | .invalidText => "invalid utf-8 sequence"

inductive Failure
  | protocol (cause : ProtocolError)
  | topic (cause : TopicError)
  | storage (cause : StorageError)
deriving DecidableEq

def Failure.message : Failure → String
  | .protocol cause => cause.message
  | .topic cause => cause.message
  | .storage cause => cause.message

end MqttBroker
