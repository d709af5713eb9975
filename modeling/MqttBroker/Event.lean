import MqttBroker.Message

/-!
Events: a message on its way to several recipients, each of which reports that it is done with
it. The last report completes the event. Reporting has two steps, `countDown` and, for whoever
counted down to zero, `complete`, so reports of several recipients may interleave.
-/

namespace MqttBroker

structure Event where
  message : Publish
  remaining : Nat
  armed : Bool := true
  completions : Nat := 0

namespace Event

def complete (e : Event) : Event :=
  if e.armed then { e with armed := false, completions := e.completions + 1 } else e

def new (message : Publish) (recipients : Nat) : Event :=
  let e : Event := { message, remaining := recipients }
  if recipients = 0 then e.complete else e

def countDown (e : Event) : Event × Bool :=
  ({ e with remaining := e.remaining - 1 }, e.remaining = 1)

def done (e : Event) : Event :=
  match e.countDown with
  | (e, true) => e.complete
  | (e, false) => e

def isDone (e : Event) : Bool := e.remaining = 0

def describe (e : Event) : String :=
  "Event \x7b msg: " ++ e.message.describe ++ ", remaining: " ++ Text.decimal e.remaining ++ " \x7d"

end Event

end MqttBroker
