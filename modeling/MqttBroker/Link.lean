import MqttBroker.Failure

/-!
Links between a client and the broker: packets under way in both directions. A link that is
closed carries no more packets; what the client has been sent before it still receives.
-/

namespace MqttBroker

structure Link where
  address : String
  commonName : Option String := none
  toBroker : List Packet := []
  toClient : List Packet := []
  closed : Bool := false
  abandoned : Bool := false

namespace Link

inductive Received
  | packet (p : Packet)
  | nothing
  | ended

def send (l : Link) (p : Packet) : Except ProtocolError Link :=
  if l.closed || l.abandoned then .error .connectionClosed
  else .ok { l with toClient := l.toClient ++ [p] }

/-- The broker receives. A closed link gives nothing more, what is under way included. -/
def receive (l : Link) : Link × Received :=
  if l.closed then (l, .ended)
  else match l.toBroker with
    | p :: rest => ({ l with toBroker := rest }, .packet p)
    | [] => (l, if l.abandoned then .ended else .nothing)

def close (l : Link) : Link := { l with closed := true }

def clientSend (l : Link) (p : Packet) : Except ProtocolError Link :=
  if l.closed then .error .connectionClosed
  else .ok { l with toBroker := l.toBroker ++ [p] }

def clientReceive (l : Link) : Link × Received :=
  match l.toClient with
  | p :: rest => ({ l with toClient := rest }, .packet p)
  | [] => (l, if l.closed then .ended else .nothing)

def abandon (l : Link) : Link := { l with abandoned := true }

def describe (l : Link) : String :=
  "ChannelConnection(" ++ l.address ++ ", closed: " ++ Publish.describeBool l.closed ++ ")"

end Link

end MqttBroker
