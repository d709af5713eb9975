import MqttBroker.Topic.Level

/-!
Topics: parsed topic names and topic filters. `matchesName` says which topic names a filter
selects, `covers` which filters a pattern includes.
-/

namespace MqttBroker

structure Topic where
  levels : List Level
deriving DecidableEq

namespace Topic

def hasWildcard (t : Topic) : Bool := t.levels.any Level.isWildcard

def display (t : Topic) : String := Text.joinAll '/' (t.levels.map Level.display)

def parseLevels : Bool → List String → Except TopicError (List Level)
  | _, [] => .ok []
  | first, text :: rest => do
    let level ← Level.parse first text
    let levels ← parseLevels false rest
    return level :: levels

def parse (text : String) : Except TopicError Topic := do
  let levels ← parseLevels true (Text.splitAll '/' text)
  if levels.dropLast.contains .multi then throw (.invalidTopic text)
  return ⟨levels⟩

def maxBytes : Nat := 255

/-- Reads a topic under the rules for clients: it is not empty, at most `maxBytes` long, without
NUL, and has at most `maxLevels` levels if that is not zero; wildcards are refused unless
allowed. -/
def validate (text : String) (allowWildcards : Bool) (maxLevels : Nat) :
    Except TopicError Topic := do
  if text = "" then throw .empty
  if text.utf8ByteSize > maxBytes then throw (.tooLong text.utf8ByteSize)
  if text.toList.contains '\x00' then throw .nulChar
  let count := (Text.splitAll '/' text).length
  if maxLevels > 0 && count > maxLevels then throw (.tooManyLevels count)
  let topic ← parse text
  if !allowWildcards && topic.hasWildcard then throw (.wildcardNotAllowed text)
  return topic

/-- Do the levels of a filter select the segments of a topic name? Wildcards in the first level
do not select hidden names. -/
def matchesFrom : Bool → List Level → List String → Bool
  | _, [], segments => segments.isEmpty
  | first, .multi :: _, segments => !(first && segments.head?.any Level.hidden)
  | _, _ :: _, [] => false
  | first, .single :: levels, s :: segments =>
    !(first && Level.hidden s) && matchesFrom false levels segments
  | _, .blank :: levels, s :: segments => s = "" && matchesFrom false levels segments
  | _, .normal text :: levels, s :: segments => s = text && matchesFrom false levels segments
  | _, .metadata text :: levels, s :: segments => s = text && matchesFrom false levels segments

def matchesName (filter : Topic) (name : String) : Bool :=
  matchesFrom true filter.levels (Text.splitAll '/' name)

def coversFrom : Bool → List Level → List Level → Bool
  | _, [], others => others.isEmpty
  | first, .multi :: _, others => !(first && others.head?.any Level.isMetadata)
  | _, _ :: _, [] => false
  | first, .single :: levels, other :: others =>
    other ≠ .multi && !(first && other.isMetadata) && coversFrom false levels others
  | _, level :: levels, other :: others => other = level && coversFrom false levels others

def covers (pattern filter : Topic) : Bool := coversFrom true pattern.levels filter.levels

def orderLevels : List Level → List Level → Ordering
  | [], [] => .eq
  | [], _ :: _ => .lt
  | _ :: _, [] => .gt
  | a :: as, b :: bs => (a.order b).then (orderLevels as bs)

def order (a b : Topic) : Ordering := orderLevels a.levels b.levels

end Topic

end MqttBroker
