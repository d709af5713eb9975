import MqttBroker.Json.Value
import MqttBroker.Table

/-!
How records, alternatives and lists are written as JSON values and read back. A record is an
object with its fields in order, or an array of them; fields it does not know are ignored, and a
field it knows may stand once. An alternative is its name, or an object with its name as the only
field.
-/

namespace MqttBroker.JsonValue

def asBool? : JsonValue → Option Bool
  | .bool b => some b
  | _ => none

def asString? : JsonValue → Option String
  | .string s => some s
  | _ => none

def asInt? : JsonValue → Option Int
  | .integer n => some n
  | _ => none

def asByte? (v : JsonValue) : Option UInt8 :=
  match v with
  | .integer n => if 0 ≤ n && n < 256 then some (UInt8.ofNat n.toNat) else none
  | _ => none

def asBytes? : JsonValue → Option Bytes
  | .array items => items.mapM asByte?
  | .string s => some (utf8 s)
  | .bytes b _ => some b
  | _ => none

def ofBytes (b : Bytes) : JsonValue := .array (b.map fun byte => .integer byte.toNat)

def asOption? {α : Type} (read : JsonValue → Option α) : JsonValue → Option (Option α)
  | .null => some none
  | v => (read v).map some

def ofOption {α : Type} (write : α → JsonValue) : Option α → JsonValue
  | none => .null
  | some a => write a

/-- The values of a record's fields, in the order of `names`. As an array, the record has at
least its first `required` fields. -/
def record? (names : List String) (required : Nat) : JsonValue → Option (List (Option JsonValue))
  | .object fields =>
    if fields.all fun f => names.contains f.1 || f.2.isPassable then
      names.mapM fun name =>
        match fields.filter fun f => f.1 = name with
        | [] => some none
        | [f] => some (some f.2)
        | _ => none
    else none
  | .array items =>
    if required ≤ items.length && items.length ≤ names.length then
      some (items.map some ++ List.replicate (names.length - items.length) none)
    else none
  | _ => none

def variant? : JsonValue → Option (String × Option JsonValue)
  | .string name => some (name, none)
  | .object [(name, value)] => some (name, some value)
  | _ => none

def holdsNothing : Option JsonValue → Bool
  | none => true
  | some .null => true
  | _ => false

end MqttBroker.JsonValue
