import MqttBroker.Arithmetic
import MqttBroker.Text.Digits

/-!
Gauges: a current value and the highest value it has had. Current value and peak are two words
updated one after the other, so raising a gauge has two steps, `shift` and then `raise`.
-/

namespace MqttBroker

structure Gauge where
  current : Int := 0
  peak : Int := 0
deriving DecidableEq

namespace Gauge

def shift (g : Gauge) (amount : Int) : Gauge :=
  { g with current := SignedWord.wrap (g.current + amount) }

def raise (g : Gauge) (value : Int) : Gauge :=
  { g with peak := max g.peak value }

/-- Adds to the current value and lifts the peak to the sum. The current value has already moved
when the sum turns out to leave the word. -/
def add (g : Gauge) (n : Int) : Gauge × Except Overflow Unit :=
  let moved := g.shift n
  match SignedWord.add g.current n with
  | .ok sum => (moved.raise sum, .ok ())
  | .error e => (moved, .error e)

def increment (g : Gauge) : Gauge := (g.add 1).1

theorem increment_current (g : Gauge) : g.increment.current = SignedWord.wrap (g.current + 1) := by
  unfold increment add
  split <;> rfl

def subtract (g : Gauge) (n : Int) : Gauge := g.shift (-n)

theorem subtract_zero {g : Gauge} (word : SignedWord.inRange g.current = true) :
    g.subtract 0 = g := by
  rw [subtract, shift, Int.neg_zero, Int.add_zero, SignedWord.wrap_inRange word]

def decrement (g : Gauge) : Gauge := g.subtract 1

def set (g : Gauge) (n : Int) : Gauge :=
  ({ g with current := n } : Gauge).raise n

def describe (g : Gauge) : String :=
  "\x7b \"count\":" ++ Text.decimalInt g.current ++
    ", \"max\":" ++ Text.decimalInt g.peak ++ " \x7d"

end Gauge

end MqttBroker
