import MqttBroker.Text.Digits

/-!
The shortest decimal of a binary fraction: of the decimals that lie between the midpoints to its
two neighbours, those with the fewest digits, and of these the nearest.
-/

namespace MqttBroker.Text.Shortest

/-- A positive fraction `numerator / denominator` with the ends of the interval of numbers that
stand for it, over the same denominator. The ends belong to it or not. -/
structure Interval where
  low : Nat
  value : Nat
  high : Nat
  denominator : Nat
  closed : Bool

def leading : Nat := 0x10_0000_0000_0000

/-- The interval of `mantissa * 2 ^ exponent`, a number of 53 bits. Below a power of two the
neighbours lie closer together than above it, except at the smallest exponent. -/
def Interval.ofBinary (mantissa : Nat) (exponent : Int) : Interval :=
  let scale := Nat.pow 2 exponent.toNat
  let below := if mantissa = leading && exponent > -1074 then 1 else 2
  { low := (4 * mantissa - below) * scale
    value := 4 * mantissa * scale
    high := (4 * mantissa + 2) * scale
    denominator := 4 * Nat.pow 2 (-exponent).toNat
    closed := mantissa % 2 = 0 }

namespace Interval

def holds (i : Interval) (digits : Nat) (power : Int) : Bool :=
  let left := digits * Nat.pow 10 power.toNat * i.denominator
  let unit := Nat.pow 10 (-power).toNat
  if i.closed then i.low * unit ≤ left && left ≤ i.high * unit
  else i.low * unit < left && left < i.high * unit

/-- The exponent `e` for which the value is below `10 ^ e` and not below `10 ^ (e - 1)`. -/
def magnitude (i : Interval) : Int :=
  if i.denominator ≤ i.value then (digits (i.value / i.denominator)).length
  else 1 - ((digits ((i.denominator + i.value - 1) / i.value - 1)).length : Int)

def around (i : Interval) (power : Int) : Nat × Nat :=
  let below := i.value * Nat.pow 10 (-power).toNat / (i.denominator * Nat.pow 10 power.toNat)
  (below, below + 1)

/-- Is the lower of two multiples of `10 ^ power` around the value the nearer one? A tie goes to
the even one. -/
def lowerIsNearer (i : Interval) (power : Int) (below : Nat) : Bool :=
  let twice := 2 * i.value * Nat.pow 10 (-power).toNat
  let middle := (2 * below + 1) * (i.denominator * Nat.pow 10 power.toNat)
  if twice = middle then below % 2 = 0 else twice < middle

def onGrid (i : Interval) (power : Int) : Option Nat :=
  let (below, above) := i.around power
  match i.holds below power && below ≠ 0, i.holds above power with
  | true, true => some (if i.lowerIsNearer power below then below else above)
  | true, false => some below
  | false, true => some above
  | false, false => none

def search (i : Interval) : (more places : Nat) → Nat × Int
  | 0, places =>
    let power := i.magnitude - places
    ((i.around power).1, power)
  | more + 1, places =>
    let power := i.magnitude - places
    match i.onGrid power with
    | some n => (n, power)
    | none => i.search more (places + 1)

end Interval

/-- The shortest decimal of `mantissa * 2 ^ exponent`, as digits and power of ten. Seventeen
digits are always enough. -/
def decimal (mantissa : Nat) (exponent : Int) : Nat × Int :=
  (Interval.ofBinary mantissa exponent).search 16 1

end MqttBroker.Text.Shortest
