/-!
Sets of offsets kept as increasing lists, and the runs of consecutive offsets in them.
-/

namespace MqttBroker.Offsets

def insert (o : Nat) : List Nat → List Nat
  | [] => [o]
  | p :: rest =>
    if o < p then o :: p :: rest
    else if o = p then p :: rest
    else p :: insert o rest

/-- The runs of consecutive offsets in an increasing list, each as its first offset and the one
after its last. -/
def runs : List Nat → List (Nat × Nat)
  | [] => []
  | o :: rest =>
    match runs rest with
    | [] => [(o, o + 1)]
    | (start, stop) :: more =>
      if o + 1 = start then (o, stop) :: more else (o, o + 1) :: (start, stop) :: more

def outside (start stop : Nat) (offsets : List Nat) : List Nat :=
  offsets.filter fun o => o < start || stop ≤ o

end MqttBroker.Offsets
