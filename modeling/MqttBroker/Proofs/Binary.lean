import Mathlib.Algebra.Group.Nat.Defs
import MqttBroker.Arithmetic
import MqttBroker.Codec.Binary

/-!
Reading a stored message back. What was written is read again, and the bytes after it are left.
-/

namespace MqttBroker

/-- The lengths of topic and payload are machine words, as those of all texts and byte strings in
memory are. -/
structure Publish.Sized (p : Publish) : Prop where
  topic : (utf8 p.topic).length < Word.bound
  payload : p.payload.length < Word.bound

theorem utf8?_utf8 (text : String) : utf8? (utf8 text) = some text := by
  simp only [utf8?, utf8, String.toUTF8_eq_toByteArray, Array.toArray_toList, String.fromUTF8?,
    dif_pos text.isValidUTF8]
  rfl

theorem QoS.ofNat?_value (q : QoS) : QoS.ofNat? q.value = some q := by
  cases q <;> rfl

theorem PacketId.ofNat?_val (id : PacketId) : PacketId.ofNat? id.val = some id := by
  simp [PacketId.ofNat?, id.pos, id.small]

namespace Codec.Binary

theorem takeNat_putNat (count n : Nat) (rest : Bytes) (bound : n < 256 ^ count) :
    takeNat count (putNat count n ++ rest) = some (n, rest) := by
  induction count generalizing n with
  | zero =>
      have zero : n = 0 := by omega
      simp [takeNat, putNat, zero]
  | succ count ih =>
      have high : n / 256 < 256 ^ count := by
        rw [Nat.pow_succ] at bound
        exact Nat.div_lt_of_lt_mul (by omega)
      have low : n % 256 + 256 * (n / 256) = n := by omega
      simp [takeNat, putNat, ih _ high, low]

theorem takeBool_putBool (b : Bool) (rest : Bytes) :
    takeBool (putBool b ++ rest) = some (b, rest) := by
  cases b <;> rfl

theorem takeBytes_putBytes (bytes rest : Bytes) (bound : bytes.length < Word.bound) :
    takeBytes (putBytes bytes ++ rest) = some (bytes, rest) := by
  have read := takeNat_putNat 8 bytes.length (bytes ++ rest) bound
  simp [takeBytes, putBytes, read]

theorem takeOption_putOption {α : Type} {put : α → Bytes} {take : Bytes → Option (α × Bytes)}
    (reads : ∀ a rest, take (put a ++ rest) = some (a, rest)) (a : Option α) (rest : Bytes) :
    takeOption take (putOption put a ++ rest) = some (a, rest) := by
  cases a with
  | none => rfl
  | some a => simp [takeOption, putOption, reads]

theorem takeId_putId (id : PacketId) (rest : Bytes) :
    takeId (putId id ++ rest) = some (id, rest) := by
  have read := takeNat_putNat 2 id.val rest id.small
  simp [takeId, putId, read, PacketId.ofNat?_val]

theorem takeTime_putTime (t : Int64) (rest : Bytes) :
    takeTime (putTime t ++ rest) = some (t, rest) := by
  have read := takeNat_putNat 8 t.toUInt64.toNat rest t.toUInt64.toNat_lt
  have word : t.toUInt64.toNat.toUInt64 = t.toUInt64 := UInt64.ofNat_toNat
  simp only [takeTime, putTime, read, Option.bind_eq_bind, Option.bind_some, Option.pure_def, word,
    Int64.toInt64_toUInt64]

theorem decode_encode_append (p : Publish) (sized : p.Sized) (rest : Bytes) :
    decode (encode p ++ rest) = some (p, rest) := by
  have qosBound : p.qos.value < 256 ^ 4 := by
    cases p.qos <;> decide
  simp only [encode, decode, List.append_assoc, takeBool_putBool, takeNat_putNat _ _ _ qosBound,
    QoS.ofNat?_value, takeBytes_putBytes _ _ sized.topic, utf8?_utf8,
    takeOption_putOption takeId_putId, takeBytes_putBytes _ _ sized.payload,
    takeOption_putOption takeTime_putTime, Option.bind_eq_bind, Option.bind_some, Option.pure_def]

theorem decode_encode (p : Publish) (sized : p.Sized) : decode (encode p) = some (p, []) := by
  simpa using decode_encode_append p sized []

end Codec.Binary

end MqttBroker
