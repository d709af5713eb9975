import MqttBroker.Gauge

/-!
The gauges that a broker keeps about itself.
-/

namespace MqttBroker

structure Stats where
  connections : Gauge := {}
  sessions : Gauge := {}
  subscriptions : Gauge := {}
  inflights : Gauge := {}
  retained : Gauge := {}
  qos0Dropped : Gauge := {}
  routed : Gauge := {}
  unrouted : Gauge := {}

namespace Stats

def countRoute (s : Stats) (recipients : Nat) : Stats :=
  if recipients = 0 then { s with unrouted := s.unrouted.increment }
  else { s with routed := s.routed.increment }

def report (s : Stats) : List (String × Int) :=
  [("connections.count", s.connections.current), ("connections.max", s.connections.peak),
   ("sessions.count", s.sessions.current), ("sessions.max", s.sessions.peak),
   ("subscriptions.count", s.subscriptions.current), ("subscriptions.max", s.subscriptions.peak),
   ("inflights.count", s.inflights.current), ("inflights.max", s.inflights.peak),
   ("retaineds.count", s.retained.current),
   ("messages.qos0_dropped", s.qos0Dropped.current),
   ("messages.routed", s.routed.current),
   ("messages.unrouted", s.unrouted.current)]

end Stats

end MqttBroker
