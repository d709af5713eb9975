import MqttBroker.Text.Quantity

/-!
Durations such as `250ms` or `1h30m`, counted in milliseconds.
-/

namespace MqttBroker.Duration

def unitMillis : Char → Option Nat
  | 'Y' => some 1
  | 's' => some 1000
  | 'm' => some 60000
  | 'h' => some 3600000
  | 'd' => some 86400000
  | 'w' => some 604800000
  | _ => none

/-- Milliseconds, of two letters, become a unit of one letter. -/
def markMillis : List Char → List Char
  | [] => []
  | [c] => [c]
  | c :: d :: rest =>
    if c = 'm' && d = 's' then 'Y' :: markMillis rest
    else c :: markMillis (d :: rest)

def read (text : String) : Except Overflow Nat :=
  Text.quantity unitMillis (markMillis ((Text.trim text.toList).map Text.lowerAscii))

end MqttBroker.Duration
