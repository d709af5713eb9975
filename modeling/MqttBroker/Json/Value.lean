import MqttBroker.Message
import MqttBroker.Text.Digits

/-!
JSON values and their text without spaces. The fields of an object keep their order, and may
repeat.
-/

namespace MqttBroker

inductive JsonValue
  | null
  | bool (b : Bool)
  | integer (n : Int)
  /-- A number with a fraction, an exponent or a negative zero, as it is written. -/
  | real (text : String)
  | string (s : String)
  /-- A string that is no text, because half of a surrogate pair or a bare control character
  stands in it, as the bytes it stands for. -/
  | bytes (b : Bytes) (hasControl : Bool)
  | array (items : List JsonValue)
  | object (fields : List (String × JsonValue))

namespace JsonValue

def escape (c : Char) : List Char :=
  if c = '"' then ['\\', '"']
  else if c = '\\' then ['\\', '\\']
  else if c = '\x08' then ['\\', 'b']
  else if c = '\t' then ['\\', 't']
  else if c = '\n' then ['\\', 'n']
  else if c = '\x0c' then ['\\', 'f']
  else if c = '\r' then ['\\', 'r']
  else if c.toNat < 0x20 then
    ['\\', 'u', '0', '0', Text.hexDigit (c.toNat / 16), Text.hexDigit (c.toNat % 16)]
  else [c]

def quote (s : String) : List Char := '"' :: s.toList.flatMap escape ++ ['"']

mutual

def write : JsonValue → List Char
  | .null => "null".toList
  | .bool true => "true".toList
  | .bool false => "false".toList
  | .integer n => (Text.decimalInt n).toList
  | .real text => text.toList
  | .string s => quote s
  | .bytes b _ => quote ((utf8? b).getD "")
  | .array items => '[' :: writeItems true items ++ [']']
  | .object fields => '\x7b' :: writeFields true fields ++ ['\x7d']

def writeItems (first : Bool) : List JsonValue → List Char
  | [] => []
  | item :: rest => (if first then [] else [',']) ++ write item ++ writeItems false rest

def writeFields (first : Bool) : List (String × JsonValue) → List Char
  | [] => []
  | field :: rest => (if first then [] else [',']) ++ writeField field ++ writeFields false rest

def writeField : String × JsonValue → List Char
  | (key, value) => quote key ++ ':' :: write value

end

def text (v : JsonValue) : String := String.ofList v.write

mutual

/-- May the value be passed over unread? No bare control character may stand in it. -/
def isPassable : JsonValue → Bool
  | .bytes _ hasControl => !hasControl
  | .array items => arePassable items
  | .object fields => passFields fields
  | _ => true

def arePassable : List JsonValue → Bool
  | [] => true
  | item :: rest => isPassable item && arePassable rest

def passFields : List (String × JsonValue) → Bool
  | [] => true
  | field :: rest => passField field && passFields rest

def passField : String × JsonValue → Bool
  | (_, value) => isPassable value

end

end JsonValue

end MqttBroker
