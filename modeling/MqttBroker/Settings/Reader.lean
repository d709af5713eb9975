import MqttBroker.Duration
import MqttBroker.Settings.Basic
import MqttBroker.Toml.Reader

/-!
Settings read from configuration values. Unknown keys are passed over, missing ones take their
defaults.
-/

namespace MqttBroker

namespace SettingsReader

abbrev Read (α : Type) := ConfigValue → Except SettingsError α

abbrev Fields := List (String × ConfigValue)

def convert {α : Type} (as? : ConfigValue → Option α) : Read α := fun v =>
  match as? v with
  | some a => .ok a
  | none => .error .unfit

def word : Read Nat := convert ConfigValue.asWord?

def boolean : Read Bool := convert ConfigValue.asBool?

def text : Read String := convert ConfigValue.asText?

def real : Read Float32 := fun v => (convert ConfigValue.asReal? v).map Float.toFloat32

def list {α : Type} (item : Read α) : Read (List α) := fun v => do
  (← convert ConfigValue.asList? v).mapM item

def choice {α : Type} (choices : List α) (name : α → String) : Read α := fun v => do
  let text ← convert ConfigValue.asChoice? v
  match choices.find? fun a => name a = text with
  | some a => .ok a
  | none => .error .unfit

def duration : Read Nat := fun v => do
  (Duration.read (← text v)).mapError .overflow

def byteSize : Read Nat := fun v => do
  match ByteSize.decode (← text v) with
  | .ok n => .ok n
  | .error (.overflow cause) => .error (.overflow cause)
  | .error e => .error (.refused e.message)

def logTarget : Read Log.Target := fun v => do
  let name ← text v
  match Log.Target.ofText? name with
  | some target => .ok target
  | none => .error (.refused (Log.unknownTarget name))

def logLevel : Read Log.Level := fun v => do
  let name ← text v
  match Log.Level.ofText? name with
  | some level => .ok level
  | none => .error (.refused (Log.unknownLevel name))

def field {α : Type} (fs : Fields) (name : String) (read : Read α) (fallback : α) :
    Except SettingsError α :=
  match ConfigValue.lookup name fs with
  | some v => read v
  | none => .ok fallback

def sectionOf {α : Type} (names : List String) (read : Fields → Except SettingsError α) : Read α :=
  fun v => do read (← convert (ConfigValue.fields? names) v)

def log : Read Log.Settings := sectionOf ["to", "level", "dir", "file"] fun fs => do
  let d : Log.Settings := {}
  return { target := ← field fs "to" logTarget d.target
           level := ← field fs "level" logLevel d.level
           dir := ← field fs "dir" text d.dir
           file := ← field fs "file" text d.file }

def mqttNames : List String :=
  ["max_qos0_queue", "qos0_overflow", "max_inflight", "retry_interval", "write_batch_size",
   "write_batch_interval", "delete_batch_size", "delete_batch_interval", "expiry_sweep_interval",
   "message_expiry_interval", "max_payload_size", "max_topic_levels", "max_subscriptions",
   "max_clientid_len", "connect_timeout", "keepalive_backoff", "system_topic_prefixes"]

def mqtt : Read MqttSettings := sectionOf mqttNames fun fs => do
  let d : MqttSettings := {}
  return { maxQos0Queue := ← field fs "max_qos0_queue" word d.maxQos0Queue
           qos0Overrun := ← field fs "qos0_overflow" (choice [.early, .current] Overrun.name)
             d.qos0Overrun
           maxInflight := ← field fs "max_inflight" word d.maxInflight
           retryInterval := ← field fs "retry_interval" duration d.retryInterval
           writeBatchSize := ← field fs "write_batch_size" word d.writeBatchSize
           writeBatchInterval := ← field fs "write_batch_interval" duration d.writeBatchInterval
           deleteBatchSize := ← field fs "delete_batch_size" word d.deleteBatchSize
           deleteBatchInterval := ← field fs "delete_batch_interval" duration
             d.deleteBatchInterval
           expirySweepInterval := ← field fs "expiry_sweep_interval" duration
             d.expirySweepInterval
           messageExpiryInterval := ← field fs "message_expiry_interval" duration
             d.messageExpiryInterval
           maxPayloadSize := ← field fs "max_payload_size" byteSize d.maxPayloadSize
           maxTopicLevels := ← field fs "max_topic_levels" word d.maxTopicLevels
           maxSubscriptions := ← field fs "max_subscriptions" word d.maxSubscriptions
           maxClientIdLength := ← field fs "max_clientid_len" word d.maxClientIdLength
           connectTimeout := ← field fs "connect_timeout" duration d.connectTimeout
           keepaliveBackoff := ← field fs "keepalive_backoff" real d.keepaliveBackoff
           systemTopicPrefixes := ← field fs "system_topic_prefixes" (list text)
             d.systemTopicPrefixes }

def permissionsFrom (boolean : Read Bool) (texts : Read (List String)) (fs : Fields) :
    Except SettingsError Permissions := do
  return { superuser := ← field fs "superuser" boolean false
           publish := ← field fs "publish" texts []
           subscribe := ← field fs "subscribe" texts [] }

def permissions : Read Permissions :=
  sectionOf ["superuser", "publish", "subscribe"] (permissionsFrom boolean (list text))

def plainBoolean : Read Bool
  | .boolean b => .ok b
  | _ => .error .unfit

def plainText : Read String
  | .text s => .ok s
  | _ => .error .unfit

/-- The permissions that stand among the other fields of an account or certificate. They are
taken as they are written. -/
def ownPermissions : Fields → Except SettingsError Permissions :=
  permissionsFrom plainBoolean (list plainText)

def required {α : Type} (fs : Fields) (name : String) (read : Read α) : Except SettingsError α :=
  match ConfigValue.lookup name fs with
  | some v => read v
  | none => .error .unfit

def entries : Read Fields
  | .table es => .ok es
  | _ => .error .unfit

def account : Read Account := fun v => do
  let fs ← entries v
  return { username := ← required fs "username" text
           password := ← field fs "password" text ""
           permissions := ← ownPermissions fs }

def certificate : Read Certificate := fun v => do
  let fs ← entries v
  return { commonName := ← required fs "common_name" text
           permissions := ← ownPermissions fs }

def acl : Read AclSettings :=
  sectionOf ["allow_anonymous", "anonymous", "accounts", "certificates"] fun fs => do
    return { allowAnonymous := ← field fs "allow_anonymous" boolean false
             anonymous := ← field fs "anonymous" permissions {}
             accounts := ← field fs "accounts" (list account) []
             certificates := ← field fs "certificates" (list certificate) [] }

def storage : Read StorageSettings :=
  sectionOf ["type", "path", "cache_capacity", "flush_interval"] fun fs => do
    let d : StorageSettings := {}
    return { kind := ← field fs "type" (choice [.memory, .disk] StorageKind.name) d.kind
             path := ← field fs "path" text d.path
             cacheCapacity := ← field fs "cache_capacity" byteSize d.cacheCapacity
             flushInterval := ← field fs "flush_interval" duration d.flushInterval }

end SettingsReader

namespace Settings

open SettingsReader in
def ofEntries (fs : List (String × ConfigValue)) : Except SettingsError Settings := do
  let settings : Settings :=
    { log := ← field fs "log" SettingsReader.log {}
      mqtt := ← field fs "mqtt" SettingsReader.mqtt {}
      acl := ← field fs "acl" SettingsReader.acl {}
      storage := ← field fs "storage" SettingsReader.storage {} }
  settings.check
  return settings

def entriesOf (document : String) : Except SettingsError (List (String × ConfigValue)) :=
  match Toml.read? document with
  | some source => .ok source
  | none => .error .unreadable

def ofDocument (document : String) : Except SettingsError Settings := do
  ofEntries (ConfigValue.overlay [] (← entriesOf document))

/-! Settings of a running program -/

def variableStart : String := "edgemq_"

/-- The variable that is read as a list, split at every space. -/
def listKey : String := "mqtt.system_topic_prefixes"

def variableValue (key value : String) : ConfigValue :=
  let low := ConfigValue.lower value
  if low = "true" then .boolean true
  else if low = "false" then .boolean false
  else match Text.readSigned value.toList, Text.readReal value.toList with
    | some n, _ => .integer n
    | none, some x => .real x
    | none, none =>
      if key = listKey then .list ((Text.splitAll ' ' value).map .text) else .text value

def variableKey (name : String) : Option String :=
  let low := ConfigValue.lower name
  if Text.startsWith variableStart low then
    let key := String.ofList (low.toList.drop variableStart.length)
    some (Text.replaceAll "__" "." key)
  else none

def environmentEntries (environment : List (String × String)) : List (String × ConfigValue) :=
  environment.filterMap fun (name, value) =>
    (variableKey name).map fun key => (key, variableValue key value)

inductive File
  | none
  | missing
  | document (text : String)

/-- The settings for an environment and a file. The file has the last word. -/
def load (environment : List (String × String)) (file : File) : Except SettingsError Settings := do
  let base := ConfigValue.overlay [] (environmentEntries environment)
  match file with
  | .none => ofEntries base
  | .missing => .error .unfit
  | .document text => ofEntries (ConfigValue.overlay base (← entriesOf text))

def install (installed : Option Settings) (loaded : Except SettingsError Settings) :
    Option Settings × Except SettingsError Settings :=
  match loaded, installed with
  | .error e, _ => (installed, .error e)
  | .ok _, some _ => (installed, .error .installed)
  | .ok settings, none => (some settings, .ok settings)

def notInstalled : String := "internal error: entered unreachable code: Settings not initialized"

end Settings

end MqttBroker
