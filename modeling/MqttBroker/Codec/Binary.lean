import MqttBroker.Message

/-!
The binary form in which queued messages are stored. Numbers are little-endian with a fixed
number of bytes; texts and payloads follow their length; an optional value follows a byte that
says whether it is there. Bytes after a message are left over.
-/

namespace MqttBroker.Codec.Binary

def putNat : Nat → Nat → Bytes
  | 0, _ => []
  | count + 1, n => UInt8.ofNat (n % 256) :: putNat count (n / 256)

def putBool (b : Bool) : Bytes := [if b then 1 else 0]

def putBytes (bytes : Bytes) : Bytes := putNat 8 bytes.length ++ bytes

def putOption {α : Type} (put : α → Bytes) : Option α → Bytes
  | none => [0]
  | some a => 1 :: put a

def putId (id : PacketId) : Bytes := putNat 2 id.val

def putTime (t : Int64) : Bytes := putNat 8 t.toUInt64.toNat

def encode (p : Publish) : Bytes :=
  putBool p.dup ++ putBool p.retain ++ putNat 4 p.qos.value ++ putBytes (utf8 p.topic) ++
  putOption putId p.packetId ++ putBytes p.payload ++ putOption putTime p.createTime

def takeNat : Nat → Bytes → Option (Nat × Bytes)
  | 0, bytes => some (0, bytes)
  | _ + 1, [] => none
  | count + 1, b :: bytes => do
    let (high, rest) ← takeNat count bytes
    return (b.toNat + 256 * high, rest)

def takeBool (bytes : Bytes) : Option (Bool × Bytes) :=
  match bytes with
  | 0 :: rest => some (false, rest)
  | 1 :: rest => some (true, rest)
  | _ => none

def takeBytes (bytes : Bytes) : Option (Bytes × Bytes) := do
  let (length, rest) ← takeNat 8 bytes
  if rest.length < length then none else some (rest.take length, rest.drop length)

def takeOption {α : Type} (take : Bytes → Option (α × Bytes)) (bytes : Bytes) :
    Option (Option α × Bytes) :=
  match bytes with
  | 0 :: rest => some (none, rest)
  | 1 :: rest => (take rest).map fun (a, rest) => (some a, rest)
  | _ => none

def takeId (bytes : Bytes) : Option (PacketId × Bytes) := do
  let (n, rest) ← takeNat 2 bytes
  let id ← PacketId.ofNat? n
  return (id, rest)

def takeTime (bytes : Bytes) : Option (Int64 × Bytes) := do
  let (n, rest) ← takeNat 8 bytes
  return (n.toUInt64.toInt64, rest)

def decode (bytes : Bytes) : Option (Publish × Bytes) := do
  let (dup, bytes) ← takeBool bytes
  let (retain, bytes) ← takeBool bytes
  let (tag, bytes) ← takeNat 4 bytes
  let qos ← QoS.ofNat? tag
  let (name, bytes) ← takeBytes bytes
  let topic ← utf8? name
  let (packetId, bytes) ← takeOption takeId bytes
  let (payload, bytes) ← takeBytes bytes
  let (createTime, bytes) ← takeOption takeTime bytes
  return ({ dup, retain, qos, topic, packetId, payload, createTime }, bytes)

end MqttBroker.Codec.Binary
