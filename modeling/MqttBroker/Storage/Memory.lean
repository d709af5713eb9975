import MqttBroker.Storage.Bucket
import MqttBroker.Table
import MqttBroker.Text.Pieces

/-!
Storage in memory: named buckets and a table of keys and values. A bucket that is closed clean is
dropped; whoever still holds it keeps a bucket of no name, and the name is free for a new one.
Buckets can be told to refuse writes, to see how their users bear it.
-/

namespace MqttBroker.Storage

abbrev Handle := Nat

structure Memory where
  names : Table String Handle := []
  buckets : Table Handle Bucket := []
  opened : Nat := 0
  entries : Table String Bytes := []
  failing : Bool := false
  closed : Bool := false

namespace Memory

def checkOpen (m : Memory) : Except StorageError Unit :=
  if m.closed then .error .closed else .ok ()

/-- Closes the storage. Buckets that are held stay usable. -/
def close (m : Memory) : Memory := { m with closed := true }

def reopen (m : Memory) : Memory := { m with closed := false }

def setFailing (m : Memory) (failing : Bool) : Memory := { m with failing }

def bucket (m : Memory) (name : String) : Except StorageError (Memory × Handle) := do
  m.checkOpen
  match m.names.get? name with
  | some h => return (m, h)
  | none =>
    let h := m.opened
    return ({ m with names := m.names.insert name h, buckets := m.buckets.insert h { name },
                     opened := h + 1 }, h)

def bucketExists (m : Memory) (name : String) : Bool := m.names.contains name

def find? (m : Memory) (h : Handle) : Option Bucket := m.buckets.get? h

def named? (m : Memory) (name : String) : Option Bucket := (m.names.get? name).bind m.find?

def replace (m : Memory) (h : Handle) (b : Bucket) : Memory :=
  { m with buckets := m.buckets.insert h b }

def write {α : Type} (m : Memory) (h : Handle) (change : Bucket → Bucket × α) :
    Except StorageError (Memory × α) :=
  match m.find? h with
  | none => .error .noBucket
  | some b =>
    if m.failing then .error (.writeFailed b.name)
    else
      let (b, result) := change b
      .ok (m.replace h b, result)

def put (m : Memory) (h : Handle) (time : Int64) (batch : List Bytes) :
    Except StorageError (Memory × List Nat) :=
  m.write h fun b => b.put time batch

def get (m : Memory) (h : Handle) (offset limit : Nat) : Except StorageError (List Record) :=
  match m.find? h with
  | none => .error .noBucket
  | some b => .ok (b.get offset limit)

def deleteRange (m : Memory) (h : Handle) (start stop : Nat) :
    Except StorageError (Memory × Nat) :=
  m.write h fun b => b.deleteRange start stop

def deleteBefore (m : Memory) (h : Handle) (time : Int64) : Except StorageError (Memory × Nat) :=
  m.write h fun b => b.deleteBefore time

def size (m : Memory) (h : Handle) : Except StorageError Nat :=
  match m.find? h with
  | none => .error .noBucket
  | some b => .ok b.records.length

/-- Closes a bucket. With `clean` its records are dropped and its name is free again. -/
def closeBucket (m : Memory) (h : Handle) (clean : Bool) : Memory :=
  match clean, m.find? h with
  | true, some b =>
    { m with buckets := m.buckets.insert h { b with records := [] }, names := m.names.erase b.name }
  | _, _ => m

def setEntry (m : Memory) (key : String) (value : Bytes) : Except StorageError Memory := do
  m.checkOpen
  return { m with entries := m.entries.insert key value }

def getEntry (m : Memory) (key : String) : Except StorageError (Option Bytes) := do
  m.checkOpen
  return m.entries.get? key

def deleteEntry (m : Memory) (key : String) : Except StorageError Memory := do
  m.checkOpen
  return { m with entries := m.entries.erase key }

def entriesUnder (m : Memory) (start : String) : Except StorageError (Table String Bytes) := do
  m.checkOpen
  return m.entries.filter fun e => Text.startsWith start e.1

end Memory

end MqttBroker.Storage
