import MqttBroker.Text.Pieces
import MqttBroker.Text.Real

/-!
Configuration values: what a configuration file or an environment variable says, before it is
known what it is for. Whoever asks for a value of some type gets it from values of other types
too, where they have a plain meaning.
-/

namespace MqttBroker

inductive ConfigValue
  | boolean (b : Bool)
  | integer (n : Int)
  | real (x : Float)
  | text (s : String)
  | list (items : List ConfigValue)
  | table (entries : List (String × ConfigValue))

namespace ConfigValue

def lower (s : String) : String := String.ofList (s.toList.map Text.lowerAscii)

def switch? (s : String) : Option Bool :=
  if ["true", "on", "yes"].contains (lower s) then some true
  else if ["false", "off", "no"].contains (lower s) then some false
  else none

def asBool? : ConfigValue → Option Bool
  | .boolean b => some b
  | .integer n => some (n ≠ 0)
  | .real x => some (x != 0)
  | .text s =>
    if s = "1" then some true else if s = "0" then some false else switch? s
  | _ => none

/-- Reads a machine word. A fraction is rounded, its half away from zero, and cut at the ends of
the range. -/
def asWord? : ConfigValue → Option Nat
  | .boolean b => some b.toNat
  | .integer n => if 0 ≤ n then some n.toNat else none
  | .real x => some x.round.toUInt64.toNat
  | .text s =>
    match switch? s with
    | some b => some b.toNat
    | none => Text.readBelow Word.bound s.toList
  | _ => none

def asReal? : ConfigValue → Option Float
  | .boolean b => some (if b then 1 else 0)
  | .integer n => some (Float.ofInt n)
  | .real x => some x
  | .text s =>
    match switch? s with
    | some b => some (if b then 1 else 0)
    | none => Text.readReal s.toList
  | _ => none

def asText? : ConfigValue → Option String
  | .boolean b => some (if b then "true" else "false")
  | .integer n => some (Text.decimalInt n)
  | .real x => some (Text.real x)
  | .text s => some s
  | _ => none

def asList? : ConfigValue → Option (List ConfigValue)
  | .list items => some items
  | _ => none

def asChoice? : ConfigValue → Option String
  | .text s => some s
  | .table [(key, _)] => some key
  | _ => none

def lookup (key : String) (entries : List (String × ConfigValue)) : Option ConfigValue :=
  (entries.find? fun e => e.1 = key).map Prod.snd

/-- The fields of a section: the entries of a table, or a list that gives the values in the
order of the fields. -/
def fields? (names : List String) : ConfigValue → Option (List (String × ConfigValue))
  | .table entries => some entries
  | .list items => some (names.zip items)
  | _ => none

def put (key : String) (value : ConfigValue) :
    List (String × ConfigValue) → List (String × ConfigValue)
  | [] => [(key, value)]
  | e :: rest => if e.1 = key then (key, value) :: rest else e :: put key value rest

mutual

/-- What two sources say of the same thing, the second of which has the last word. Tables are
joined entry by entry, so that an empty one says nothing. -/
def merge (first : Option ConfigValue) : ConfigValue → ConfigValue
  | .table [] => first.getD (.table [])
  | .table entries =>
    .table (mergeEntries (match first with | some (.table old) => old | _ => []) entries)
  | value => value

def mergeEntries (old : List (String × ConfigValue)) :
    List (String × ConfigValue) → List (String × ConfigValue)
  | [] => old
  | e :: rest => mergeEntries (mergeEntry old e) rest

def mergeEntry (old : List (String × ConfigValue)) :
    String × ConfigValue → List (String × ConfigValue)
  | (key, value) => put key (merge (lookup key old) value) old

end

def isPathName (name : List Char) : Bool :=
  !name.isEmpty && name.all fun c =>
    ('a' ≤ c && c ≤ 'z') || ('A' ≤ c && c ≤ 'Z') || Text.isDigit c || c = '_' || c = '-'

/-- The path that a key at the top stands for: its parts between the points, if all of them are
names. -/
def path (key : String) : List String :=
  let parts := Text.pieces '.' key.toList
  if parts.all isPathName then parts.map String.ofList else [key]

def nest (value : ConfigValue) : List String → ConfigValue
  | [] => value
  | key :: rest => .table [(key, nest value rest)]

def overlay (old source : List (String × ConfigValue)) : List (String × ConfigValue) :=
  source.foldl (fun old e =>
    match merge (some (.table old)) (nest e.2 (path e.1)) with
    | .table joined => joined
    | _ => old) old

end ConfigValue

end MqttBroker
