import MqttBroker.Text.Pieces

/-!
Levels of a topic: what stands between two slashes of a topic name or a topic filter.
-/

namespace MqttBroker

inductive TopicError
  | empty
  | tooLong (bytes : Nat)
  | nulChar
  | tooManyLevels (levels : Nat)
  | wildcardNotAllowed (text : String)
  | invalidLevel (level : String)
  | invalidTopic (text : String)
deriving DecidableEq

def TopicError.name : TopicError → String
  | .empty => "Empty"
  | .tooLong _ => "TooLong"
  | .nulChar => "NulChar"
  | .tooManyLevels _ => "TooManyLevels"
  | .wildcardNotAllowed _ => "WildcardNotAllowed"
  | .invalidLevel _ => "InvalidLevel"
  | .invalidTopic _ => "InvalidTopic"

def TopicError.message : TopicError → String
  | .empty => "empty topic"
  | .tooLong bytes => s!"topic too long, {bytes} bytes"
  | .nulChar => "topic contains a NUL character"
  | .tooManyLevels levels => s!"too many topic levels, {levels}"
  | .wildcardNotAllowed text => "wildcards are not allowed in `" ++ text ++ "`"
  | .invalidLevel level => "invalid level `" ++ level ++ "`"
  | .invalidTopic text => "invalid topic `" ++ text ++ "`"

/-- A level: a word, a word reserved for the broker, the empty level, or one of the wildcards
`+` (exactly one level) and `#` (any number of levels). -/
inductive Level
  | normal (text : String)
  | metadata (text : String)
  | blank
  | single
  | multi
deriving DecidableEq

namespace Level

def text? : Level → Option String
  | .normal text => some text
  | .metadata text => some text
  | _ => none

def isMetadata : Level → Bool
  | .metadata _ => true
  | _ => false

def isWildcard : Level → Bool
  | .single => true
  | .multi => true
  | _ => false

def display : Level → String
  | .normal text => text
  | .metadata text => text
  | .blank => ""
  | .single => "+"
  | .multi => "#"

/-- Is this text one of the broker's own, hidden from wildcards in the first level? -/
def hidden (text : String) : Bool := text.toList.head? = some '$'

def parse (first : Bool) (text : String) : Except TopicError Level :=
  if text = "+" then .ok .single
  else if text = "#" then .ok .multi
  else if text = "" then .ok .blank
  else if text.toList.any (fun c => c = '+' || c = '#') then .error (.invalidLevel text)
  else if first && hidden text then .ok (.metadata text)
  else .ok (.normal text)

def rank : Level → Nat
  | .normal _ => 0
  | .metadata _ => 1
  | .blank => 2
  | .single => 3
  | .multi => 4

def order (a b : Level) : Ordering :=
  (compare a.rank b.rank).then (compare (a.text?.getD "") (b.text?.getD ""))

end Level

end MqttBroker
