/-!
Tables: finite maps kept as lists of entries with increasing keys, so that equal maps are equal
lists and the entries come in the order of the keys.
-/

namespace MqttBroker

/-- Entries of a finite map, by increasing key. -/
abbrev Table (κ α : Type) := List (κ × α)

namespace Table

variable {κ α : Type} [Ord κ]

def get? (t : Table κ α) (key : κ) : Option α :=
  (t.find? fun e => compare e.1 key == .eq).map Prod.snd

def contains (t : Table κ α) (key : κ) : Bool := (t.get? key).isSome

def insert (key : κ) (value : α) : Table κ α → Table κ α
  | [] => [(key, value)]
  | e :: rest =>
    match compare e.1 key with
    | .lt => e :: insert key value rest
    | .eq => (key, value) :: rest
    | .gt => (key, value) :: e :: rest

def erase (key : κ) (t : Table κ α) : Table κ α := t.filter fun e => compare e.1 key != .eq

def modify (key : κ) (change : α → α) (t : Table κ α) : Table κ α :=
  t.map fun e => if compare e.1 key == .eq then (e.1, change e.2) else e

def keys (t : Table κ α) : List κ := t.map Prod.fst

def values (t : Table κ α) : List α := t.map Prod.snd

def ofList (entries : List (κ × α)) : Table κ α :=
  entries.foldl (fun t e => t.insert e.1 e.2) []

end Table

end MqttBroker
