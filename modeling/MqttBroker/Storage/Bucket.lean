import MqttBroker.Message
import MqttBroker.Failure

/-!
Buckets: append-only logs of records. A record gets the next offset of its bucket when it is
appended, and keeps it until it is deleted.
-/

namespace MqttBroker

structure Record where
  offset : Nat
  time : Int64
  data : Bytes
deriving DecidableEq

structure Bucket where
  name : String
  records : List Record := []
  next : Nat := 1
deriving DecidableEq

namespace Bucket

def batch (b : Bucket) (time : Int64) (data : List Bytes) : List Record :=
  ((List.range' b.next data.length).zip data).map fun (offset, data) => { offset, time, data }

def put (b : Bucket) (time : Int64) (data : List Bytes) : Bucket × List Nat :=
  ({ b with records := b.records ++ b.batch time data, next := b.next + data.length },
   List.range' b.next data.length)

def get (b : Bucket) (offset limit : Nat) : List Record :=
  (b.records.filter fun r => offset ≤ r.offset).take limit

def delete (b : Bucket) (gone : Record → Bool) : Bucket × Nat :=
  ({ b with records := b.records.filter fun r => !gone r }, b.records.countP gone)

def deleteRange (b : Bucket) (start stop : Nat) : Bucket × Nat :=
  b.delete fun r => start ≤ r.offset && r.offset < stop

def deleteBefore (b : Bucket) (time : Int64) : Bucket × Nat :=
  b.delete fun r => r.time < time

def offsets (b : Bucket) : List Nat := b.records.map Record.offset

end Bucket

end MqttBroker
