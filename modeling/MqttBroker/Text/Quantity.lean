import MqttBroker.Arithmetic
import MqttBroker.Text.Digits

/-!
Quantities written as parts, each a number followed by a one-letter unit: `2G512K`, `1h30m`.
Their value is the sum of the parts. White space around them does not count.
-/

namespace MqttBroker.Text

/-- The characters with the Unicode property White_Space, as ranges of code points. -/
def blankRanges : List (Nat × Nat) :=
  [(0x9, 0xD), (0x20, 0x20), (0x85, 0x85), (0xA0, 0xA0), (0x1680, 0x1680), (0x2000, 0x200A),
   (0x2028, 0x2029), (0x202F, 0x202F), (0x205F, 0x205F), (0x3000, 0x3000)]

def isBlank (c : Char) : Bool :=
  blankRanges.any fun range => range.1 ≤ c.toNat && c.toNat ≤ range.2

def trim (text : List Char) : List Char :=
  ((text.dropWhile isBlank).reverse.dropWhile isBlank).reverse

def upperAscii (c : Char) : Char :=
  if 'a' ≤ c && c ≤ 'z' then Char.ofNat (c.toNat - 32) else c

def lowerAscii (c : Char) : Char :=
  if 'A' ≤ c && c ≤ 'Z' then Char.ofNat (c.toNat + 32) else c

/-- The parts of a text that end in a unit, as the text before the unit and the unit.
Text after the last unit belongs to no part. -/
def unitParts (isUnit : Char → Bool) : List Char → List (List Char × Char)
  | [] => []
  | c :: rest =>
    if isUnit c then ([], c) :: unitParts isUnit rest
    else match unitParts isUnit rest with
      | [] => []
      | (number, unit) :: more => (c :: number, unit) :: more

def partValue (weight : Char → Option Nat) (part : List Char × Char) : Except Overflow Nat :=
  match weight part.2, readBelow Word.bound part.1 with
  | some w, some n => Word.mul n w
  | _, _ => .ok 0

def sumParts (weight : Char → Option Nat) : Nat → List (List Char × Char) → Except Overflow Nat
  | acc, [] => .ok acc
  | acc, part :: rest => do
    let value ← partValue weight part
    let sum ← Word.add acc value
    sumParts weight sum rest

def quantity (weight : Char → Option Nat) (text : List Char) : Except Overflow Nat :=
  sumParts weight 0 (unitParts (fun c => (weight c).isSome) text)

end MqttBroker.Text
