import MqttBroker.Settings.Basic
import MqttBroker.Storage.Disk

/-!
Storage of either kind, as the settings choose it.
-/

namespace MqttBroker

inductive Storage
  | memory (m : Storage.Memory)
  | disk (d : Storage.Disk)

namespace Storage

def openNew (s : StorageSettings) : Except StorageError Storage :=
  match s.kind with
  | .memory => .ok (.memory {})
  | .disk => (Disk.openAt s.path).map .disk

def closed : Storage → Bool
  | .memory m => m.closed
  | .disk d => d.closed

def close : Storage → Storage
  | .memory m => .memory m.close
  | .disk d => .disk d.close

def restart : Storage → Storage
  | .memory m => .memory m.close.reopen
  | .disk d => .disk d.close.restart

def bucket (s : Storage) (name : String) : Except StorageError (Storage × Handle) :=
  match s with
  | .memory m => (m.bucket name).map fun (m, h) => (.memory m, h)
  | .disk d => (d.bucket name).map fun (d, h) => (.disk d, h)

def bucketExists (s : Storage) (name : String) : Bool :=
  match s with
  | .memory m => m.bucketExists name
  | .disk d => d.bucketExists name

def put (s : Storage) (h : Handle) (time : Int64) (batch : List Bytes) :
    Storage × Except StorageError (List Nat) :=
  match s with
  | .memory m => match m.put h time batch with
    | .ok (m, offsets) => (.memory m, .ok offsets)
    | .error e => (s, .error e)
  | .disk d =>
    let (d, result) := d.put h time batch
    (.disk d, result)

def get (s : Storage) (h : Handle) (offset limit : Nat) : Except StorageError (List Record) :=
  match s with
  | .memory m => m.get h offset limit
  | .disk d => d.get h offset limit

def deleteRange (s : Storage) (h : Handle) (start stop : Nat) :
    Except StorageError (Storage × Nat) :=
  match s with
  | .memory m => (m.deleteRange h start stop).map fun (m, n) => (.memory m, n)
  | .disk d => (d.deleteRange h start stop).map fun (d, n) => (.disk d, n)

def deleteBelow (s : Storage) (h : Handle) (stop : Nat) : Except StorageError (Storage × Nat) :=
  s.deleteRange h 0 stop

def deleteBefore (s : Storage) (h : Handle) (time : Int64) : Except StorageError (Storage × Nat) :=
  match s with
  | .memory m => (m.deleteBefore h time).map fun (m, n) => (.memory m, n)
  | .disk d => (d.deleteBefore h time).map fun (d, n) => (.disk d, n)

def size (s : Storage) (h : Handle) : Except StorageError Nat :=
  match s with
  | .memory m => m.size h
  | .disk d => d.size h

def closeBucket (s : Storage) (h : Handle) (clean : Bool) : Storage :=
  match s with
  | .memory m => .memory (m.closeBucket h clean)
  | .disk d => .disk (d.closeBucket h clean)

def setEntry (s : Storage) (key : String) (value : Bytes) : Except StorageError Storage :=
  match s with
  | .memory m => (m.setEntry key value).map .memory
  | .disk d => (d.setEntry key value).map .disk

def getEntry (s : Storage) (key : String) : Except StorageError (Option Bytes) :=
  match s with
  | .memory m => m.getEntry key
  | .disk d => d.getEntry key

def deleteEntry (s : Storage) (key : String) : Except StorageError Storage :=
  match s with
  | .memory m => (m.deleteEntry key).map .memory
  | .disk d => (d.deleteEntry key).map .disk

def entriesUnder (s : Storage) (start : String) : Except StorageError (Table String Bytes) :=
  match s with
  | .memory m => m.entriesUnder start
  | .disk d => d.entriesUnder start

end Storage

end MqttBroker
