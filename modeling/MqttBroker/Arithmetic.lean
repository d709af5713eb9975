/-!
Machine words of 64 bits, and the arithmetic on them that refuses to leave their range.
-/

namespace MqttBroker

inductive Overflow
  | add
  | subtract
  | multiply
deriving DecidableEq

def Overflow.message : Overflow → String
  | .add => "attempt to add with overflow"
  | .subtract => "attempt to subtract with overflow"
  | .multiply => "attempt to multiply with overflow"

namespace Word

def bound : Nat := 0x1_0000_0000_0000_0000

def add (a b : Nat) : Except Overflow Nat :=
  if a + b < bound then .ok (a + b) else .error .add

def mul (a b : Nat) : Except Overflow Nat :=
  if a * b < bound then .ok (a * b) else .error .multiply

end Word

namespace SignedWord

def low : Int := -0x8000_0000_0000_0000

def high : Int := 0x7fff_ffff_ffff_ffff

/-- The signed word that equals `n` modulo the number of words. -/
def wrap (n : Int) : Int := n.bmod Word.bound

def inRange (n : Int) : Bool := low ≤ n && n ≤ high

theorem wrap_inRange {n : Int} (word : inRange n = true) : wrap n = n := by
  obtain ⟨above, below⟩ : low ≤ n ∧ n ≤ high := by simpa [inRange] using word
  apply Int.bmod_eq_of_le
  · exact above
  · exact Int.lt_add_one_of_le below

theorem wrap_wrap (n : Int) : wrap (wrap n) = wrap n := Int.bmod_bmod

theorem wrap_wrap_add (m n : Int) : wrap (wrap m + n) = wrap (m + n) := Int.bmod_add_bmod ..

def add (a b : Int) : Except Overflow Int :=
  if inRange (a + b) then .ok (a + b) else .error .add

def sub (a b : Int) : Except Overflow Int :=
  if inRange (a - b) then .ok (a - b) else .error .subtract

end SignedWord

end MqttBroker
