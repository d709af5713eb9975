import MqttBroker.ByteSize
import MqttBroker.Log.Level
import MqttBroker.Text.Pieces

/-!
Settings of the broker and their defaults. Times are in milliseconds, sizes in bytes.
-/

namespace MqttBroker

/-- What to do with a message for a full queue: drop the oldest queued message to make room, or
drop the message itself. -/
inductive Overrun
  | early
  | current
deriving DecidableEq

def Overrun.name : Overrun → String
  | .early => "early"
  | .current => "current"

namespace Log

structure Settings where
  target : Target := .console
  level : Level := .info
  dir : String := "/var/log/edgemq"
  file : String := "edgemq.log"

def Settings.path (s : Settings) : Option String :=
  if s.file = "" then none
  else if s.dir = "" || Text.startsWith "/" s.file then some s.file
  else if s.dir.toList.getLast? = some '/' then some (s.dir ++ s.file)
  else some (s.dir ++ "/" ++ s.file)

end Log

structure MqttSettings where
  maxQos0Queue : Nat := 1000
  qos0Overrun : Overrun := .early
  maxInflight : Nat := 64
  retryInterval : Nat := 20000
  writeBatchSize : Nat := 100
  writeBatchInterval : Nat := 100
  deleteBatchSize : Nat := 100
  deleteBatchInterval : Nat := 500
  expirySweepInterval : Nat := 60000
  messageExpiryInterval : Nat := 86400000
  maxPayloadSize : Nat := ByteSize.mega
  maxTopicLevels : Nat := 9
  /-- Zero sets no limit. -/
  maxSubscriptions : Nat := 0
  maxClientIdLength : Nat := 65535
  connectTimeout : Nat := 10000
  keepaliveBackoff : Float32 := 0.75
  systemTopicPrefixes : List String := ["$SYS", "$link"]

/-- How long a client that announced `keepAlive` seconds may be silent. Zero seconds set no
limit. -/
def MqttSettings.keepaliveTimeout (s : MqttSettings) (keepAlive : Nat) : Option Nat :=
  if keepAlive = 0 then none
  else
    let backoff := if s.keepaliveBackoff > 0 then s.keepaliveBackoff else 0.75
    some (Float32.ofNat keepAlive * 1000 / backoff).toUInt64.toNat

structure Permissions where
  superuser : Bool := false
  publish : List String := []
  subscribe : List String := []

structure Account where
  username : String
  password : String := ""
  permissions : Permissions

structure Certificate where
  commonName : String
  permissions : Permissions

structure AclSettings where
  allowAnonymous : Bool := false
  anonymous : Permissions := {}
  accounts : List Account := []
  certificates : List Certificate := []

inductive StorageKind
  | memory
  | disk
deriving DecidableEq

def StorageKind.name : StorageKind → String
  | .memory => "ram"
  | .disk => "sled"

structure StorageSettings where
  kind : StorageKind := .disk
  path : String := "/var/lib/edgemq/data"
  cacheCapacity : Nat := 64 * ByteSize.mega
  flushInterval : Nat := 500

structure Settings where
  log : Log.Settings := {}
  mqtt : MqttSettings := {}
  acl : AclSettings := {}
  storage : StorageSettings := {}

inductive SettingsError
  | unreadable
  | unfit
  | refused (message : String)
  | overflow (cause : Overflow)
  | noInflight
  | noQos0Queue
  | invalidPrefix (text : String)
  | installed
deriving DecidableEq

def SettingsError.message? : SettingsError → Option String
  | .unreadable => none
  | .unfit => none
  | .refused message => some message
  | .overflow cause => some cause.message
  | .noInflight => some "mqtt.max_inflight must be greater than 0"
  | .noQos0Queue => some "mqtt.max_qos0_queue must be greater than 0"
  | .invalidPrefix text => some ("invalid system topic prefix `" ++ text ++ "`")
  | .installed => some "Settings init failed"

def isPlainLevel (text : String) : Bool :=
  text ≠ "" && text.toList.all fun c => c ≠ '/' && c ≠ '+' && c ≠ '#'

def Settings.check (s : Settings) : Except SettingsError Unit :=
  if s.mqtt.maxInflight = 0 then .error .noInflight
  else if s.mqtt.maxQos0Queue = 0 then .error .noQos0Queue
  else match s.mqtt.systemTopicPrefixes.find? (fun p => !isPlainLevel p) with
    | some p => .error (.invalidPrefix p)
    | none => .ok ()

end MqttBroker
