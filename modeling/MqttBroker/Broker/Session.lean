import MqttBroker.Codec.Json
import MqttBroker.Exchange
import MqttBroker.Inflight
import MqttBroker.Ledger
import MqttBroker.Queue.Stored
import MqttBroker.Queue.Temporary

/-!
Sessions: what the broker keeps for a client, whether the client is connected or not. A session
with subscriptions owns two queues, one for each quality of service; a session without has none.
-/

namespace MqttBroker

abbrev ConnectionId := Nat

structure SessionQueues where
  temporary : TemporaryQueue
  durable : StoredQueue EventId

structure Session where
  uid : SessionUid
  info : SessionInfo
  matcher : TopicTree String := {}
  queues : Option SessionQueues := none
  /-- Messages sent and not yet acknowledged, with their offsets in the durable queue. -/
  inflight : Inflight Nat
  client : Option ConnectionId := none
  closed : Bool := false

namespace Session

def new (uid : SessionUid) (info : SessionInfo) (s : MqttSettings) : Session :=
  { uid, info, inflight := .new s.maxInflight s.retryInterval }

def keyStart : String := "session/"

def key (id : String) : String := keyStart ++ id

def bucketName (id : String) : String := "queue/" ++ id

def isSubscribed (s : Session) : Bool := !s.info.subscriptions.isEmpty

def holds (s : Session) (filter : String) : Bool := s.info.subscriptions.contains filter

/-- The highest quality of service granted by a subscription that selects the topic within its
namespace. -/
def granted (s : Session) (ns : Namespaces) (topic : String) : Option QoS :=
  let filters := (s.matcher.find topic).filter fun f => ns.of f = ns.of topic
  (filters.filterMap s.info.subscriptions.get?).foldl
    (fun best q => some (match best with
      | none => q
      | some p => p.higher q)) none

def acknowledge (s : Session) (id : PacketId) : Option Session :=
  match s.inflight.ack id with
  | (_, none) => none
  | (inflight, some offset) =>
    let queues := s.queues.map fun q => { q with durable := q.durable.acknowledge offset }
    some { s with inflight, queues }

def describe (s : Session) : String :=
  "Session(" ++ s.info.id ++ ", " ++ Text.decimal s.uid ++ ")"

end Session

end MqttBroker
