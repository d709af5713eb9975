import MqttBroker.Codec.Binary
import MqttBroker.Storage.Memory

/-!
Storage on disk: ordered trees that outlive a restart. The records of a bucket are in a tree of its
own, under their offsets; the next offset of a bucket is written down in another tree with every
append, so offsets are not used again after a restart. A bucket that is closed clean loses its tree;
whoever still holds it can neither read nor write it.
-/

namespace MqttBroker.Storage

/-- The digits of an offset to the base 256, highest first: the key of its record. -/
abbrev Key := List Nat

namespace Key

def digits : Nat → Nat → Key
  | 0, n => [n]
  | count + 1, n => digits count (n / 256) ++ [n % 256]

def ofOffset (offset : Nat) : Key := digits 7 offset

def offset (key : Key) : Except StorageError Nat :=
  if key.length = 8 then .ok (key.foldl (fun n digit => 256 * n + digit) 0)
  else .error (.invalidKey key.length)

end Key

abbrev Tree := Table Key Bytes

namespace Tree

def value (time : Int64) (data : Bytes) : Bytes := (Codec.Binary.putTime time).reverse ++ data

def time (value : Bytes) : Except StorageError Int64 :=
  match Codec.Binary.takeTime (value.take 8).reverse with
  | some (time, _) => .ok time
  | none => .error (.invalidRecord value.length)

def record (entry : Key × Bytes) : Except StorageError Record := do
  return { offset := ← entry.1.offset, time := ← time entry.2, data := entry.2.drop 8 }

def insertAll (t : Tree) (entries : List (Key × Bytes)) : Tree :=
  entries.foldl (fun t e => t.insert e.1 e.2) t

def eraseAll (t : Tree) (keys : List Key) : Tree := keys.foldl (fun t key => t.erase key) t

def since (t : Tree) (start : Key) : Tree := t.filter fun e => (compare start e.1).isLE

def below (t : Tree) (stop : Key) : Tree := t.filter fun e => (compare e.1 stop).isLT

def keysBefore (t : Tree) (limit : Int64) : Except StorageError (List Key) := do
  let times ← t.mapM fun e => time e.2
  return ((t.keys.zip times).filter fun e => e.2 < limit).map Prod.fst

def afterLast (t : Tree) : Except StorageError Nat :=
  match t.getLast? with
  | some (key, _) => key.offset.map fun offset => offset + 1
  | none => .ok 1

end Tree

structure DiskBucket where
  name : String
  tree : Nat
  next : Nat

structure Disk where
  trees : Table String Nat := []
  contents : Table Nat Tree := []
  created : Nat := 0
  /-- The next offsets written down, by the bytes of the name of their bucket. -/
  offsets : Table Bytes Key := []
  entries : Table Bytes Bytes := []
  names : Table String Handle := []
  buckets : Table Handle DiskBucket := []
  opened : Nat := 0
  closed : Bool := false

namespace Disk

def openAt (path : String) : Except StorageError Disk :=
  if path = "" then .error .noPath else .ok {}

def checkOpen (d : Disk) : Except StorageError Unit :=
  if d.closed then .error .closed else .ok ()

def close (d : Disk) : Disk :=
  if d.closed then d else { d with closed := true, names := [] }

def restart (d : Disk) : Disk := { d with closed := false, names := [], buckets := [] }

def openTree (d : Disk) (name : String) : Disk × Nat :=
  match d.trees.get? name with
  | some tree => (d, tree)
  | none =>
    ({ d with trees := d.trees.insert name d.created, contents := d.contents.insert d.created [],
              created := d.created + 1 }, d.created)

def saved (d : Disk) (name : String) : Except StorageError Nat :=
  match d.offsets.get? (utf8 name) with
  | some key => key.offset
  | none => .ok 1

/-- Opens the named bucket. Its next offset is after its last record and not before the one written
down. -/
def bucket (d : Disk) (name : String) : Except StorageError (Disk × Handle) := do
  d.checkOpen
  match d.names.get? name with
  | some h => return (d, h)
  | none =>
    let (d, tree) := d.openTree name
    let afterLast ← ((d.contents.get? tree).getD []).afterLast
    let next := max afterLast (← d.saved name)
    let h := d.opened
    return ({ d with names := d.names.insert name h,
                     buckets := d.buckets.insert h { name, tree, next }, opened := h + 1 }, h)

def bucketExists (d : Disk) (name : String) : Bool := d.trees.contains name

def find? (d : Disk) (h : Handle) : Option DiskBucket := d.buckets.get? h

def tree? (d : Disk) (h : Handle) : Option (DiskBucket × Tree) := do
  let b ← d.find? h
  let tree ← d.contents.get? b.tree
  return (b, tree)

/-- Appends records in order. A batch that cannot be written uses up its offsets all the same. -/
def put (d : Disk) (h : Handle) (time : Int64) (batch : List Bytes) :
    Disk × Except StorageError (List Nat) :=
  match d.find? h with
  | none => (d, .error .noBucket)
  | some b =>
    let offsets := List.range' b.next batch.length
    let entries := (offsets.zip batch).map fun (offset, data) =>
      (Key.ofOffset offset, Tree.value time data)
    let next := b.next + batch.length
    let d := { d with buckets := d.buckets.insert h { b with next } }
    if d.contents.contains b.tree || batch.isEmpty then
      ({ d with contents := d.contents.modify b.tree fun t => t.insertAll entries,
                offsets := d.offsets.insert (utf8 b.name) (.ofOffset next) }, .ok offsets)
    else (d, .error .noBucket)

def get (d : Disk) (h : Handle) (offset limit : Nat) : Except StorageError (List Record) :=
  match d.tree? h with
  | none => if limit = 0 then .ok [] else .error .noBucket
  | some (_, tree) => ((tree.since (.ofOffset offset)).take limit).mapM Tree.record

def removeKeys (d : Disk) (tree : Nat) (keys : List Key) : Disk × Nat :=
  ({ d with contents := d.contents.modify tree fun t => t.eraseAll keys }, keys.length)

def deleteRange (d : Disk) (h : Handle) (start stop : Nat) : Except StorageError (Disk × Nat) :=
  if stop ≤ start then .ok (d, 0)
  else match d.tree? h with
    | none => .error .noBucket
    | some (b, tree) =>
      .ok (d.removeKeys b.tree ((tree.since (.ofOffset start)).below (.ofOffset stop)).keys)

def deleteBefore (d : Disk) (h : Handle) (time : Int64) : Except StorageError (Disk × Nat) :=
  match d.tree? h with
  | none => .error .noBucket
  | some (b, tree) => (tree.keysBefore time).map fun keys => d.removeKeys b.tree keys

def size (d : Disk) (h : Handle) : Except StorageError Nat :=
  match d.tree? h with
  | none => .error .noBucket
  | some (_, tree) => .ok tree.length

/-- Closes a bucket. With `clean` the tree under its name is dropped, and the offset that was
written down. -/
def closeBucket (d : Disk) (h : Handle) (clean : Bool) : Disk :=
  match clean, d.find? h with
  | true, some b =>
    { d with offsets := d.offsets.erase (utf8 b.name), names := d.names.erase b.name,
             contents := match d.trees.get? b.name with
               | some tree => d.contents.erase tree
               | none => d.contents
             trees := d.trees.erase b.name }
  | _, _ => d

def setEntry (d : Disk) (key : String) (value : Bytes) : Except StorageError Disk := do
  d.checkOpen
  return { d with entries := d.entries.insert (utf8 key) value }

def getEntry (d : Disk) (key : String) : Except StorageError (Option Bytes) := do
  d.checkOpen
  return d.entries.get? (utf8 key)

def deleteEntry (d : Disk) (key : String) : Except StorageError Disk := do
  d.checkOpen
  return { d with entries := d.entries.erase (utf8 key) }

def entry (e : Bytes × Bytes) : Except StorageError (String × Bytes) :=
  match utf8? e.1 with
  | some key => .ok (key, e.2)
  | none => .error .invalidText

def entriesUnder (d : Disk) (start : String) : Except StorageError (Table String Bytes) := do
  d.checkOpen
  (d.entries.filter fun e => (utf8 start).isPrefixOf e.1).mapM entry

end Disk

end MqttBroker.Storage
