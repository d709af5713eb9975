import MqttBroker.Config.Value

/-!
The tables of a TOML document while it is read. A table may be written in several places as long
as each place adds to it in a way that no other has closed.
-/

namespace MqttBroker.Toml

/-- How a table came to be: implied by a header below it, by its own header, or by dotted keys. -/
inductive Origin
  | implied
  | header
  | dotted
deriving DecidableEq

inductive Node
  | value (v : ConfigValue)
  | table (origin : Origin) (entries : List (String × Node))
  | tables (items : List (List (String × Node)))

abbrev Entries := List (String × Node)

namespace Entries

def find? (entries : Entries) (key : String) : Option Node :=
  (List.find? (fun e => e.1 = key) entries).map Prod.snd

def replace (entries : Entries) (key : String) (node : Node) : Entries :=
  entries.map fun e => if e.1 = key then (key, node) else e

/-- Changes the table at the end of a path, making the tables on the way that are missing. Dotted
keys do not lead into a table with a header of its own. -/
def descend (dotted : Bool) (change : Origin → Entries → Option Entries) (origin : Origin)
    (entries : Entries) : List String → Option Entries
  | [] => change origin entries
  | key :: path =>
    match entries.find? key with
    | none =>
      let made := if dotted then Origin.dotted else .implied
      (descend dotted change made [] path).map fun below => entries ++ [(key, .table made below)]
    | some (.value _) => none
    | some (.tables items) =>
      (descend dotted change .header (items.getLast?.getD []) path).map fun below =>
        entries.replace key (.tables (items.dropLast ++ [below]))
    | some (.table found below) =>
      if dotted && found = .header then none
      else (descend dotted change found below path).map fun below =>
        entries.replace key (.table found below)

/-- Sets a key in the table at the end of a dotted path. A table is filled by dotted keys only or
not at all. -/
def set (path : List String) (key : String) (v : ConfigValue) (entries : Entries) :
    Option Entries :=
  entries.descend true (fun origin found =>
    if (origin = .dotted) = path.isEmpty || (found.find? key).isSome then none
    else some (found ++ [(key, .value v)])) .header path

def openTable (path : List String) (key : String) (entries : Entries) : Option Entries :=
  entries.descend false (fun _ found =>
    match found.find? key with
    | none => some (found ++ [(key, .table .header [])])
    | some (.table .implied below) => some (found.replace key (.table .header below))
    | _ => none) .header path

def openItem (path : List String) (key : String) (entries : Entries) : Option Entries :=
  entries.descend false (fun _ found =>
    match found.find? key with
    | none => some (found ++ [(key, .tables [[]])])
    | some (.tables items) => some (found.replace key (.tables (items ++ [[]])))
    | _ => none) .header path

def setUnder (header path : List String) (key : String) (v : ConfigValue) (entries : Entries) :
    Option Entries :=
  entries.descend false (fun _ found => found.set path key v) .header header

end Entries

mutual

def Node.toValue : Node → ConfigValue
  | .value v => v
  | .table _ entries => .table (toEntries entries)
  | .tables items => .list (toItems items)

def toItems : List (List (String × Node)) → List ConfigValue
  | [] => []
  | item :: rest => .table (toEntries item) :: toItems rest

def toEntries : List (String × Node) → List (String × ConfigValue)
  | [] => []
  | e :: rest => toEntry e :: toEntries rest

def toEntry : String × Node → String × ConfigValue
  | (key, node) => (key, node.toValue)

end

end MqttBroker.Toml
