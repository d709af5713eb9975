import MqttBroker.Text.Quantity
import MqttBroker.Text.Shortest

/-!
Real numbers in text, held as 64-bit binary fractions. They are read in decimal notation, and
written with the fewest digits that read back, without an exponent.
-/

namespace MqttBroker.Text

/-- The number `digits * 10 ^ power`. A power far out of range gives infinity or zero. -/
def scaled (count : Nat) (power : Int) : Float :=
  if count = 0 then 0
  else
    let size := power + (digits count).length
    if size > 400 then 1.0 / 0.0
    else if size < -400 then 0
    else if power < 0 then Float.ofScientific count true power.natAbs
    else Float.ofScientific count false power.natAbs

def readExponent (text : List Char) : Option Int :=
  let (negative, body) := match text with
    | '-' :: rest => (true, rest)
    | '+' :: rest => (false, rest)
    | _ => (false, text)
  if body.isEmpty || !body.all isDigit then none
  else some (if negative then -(ofDigits 0 body : Int) else ofDigits 0 body)

def readUnsignedReal (text : List Char) : Option Float := do
  let whole := text.takeWhile isDigit
  let rest := text.dropWhile isDigit
  let (fraction, rest) := match rest with
    | '.' :: more => (more.takeWhile isDigit, more.dropWhile isDigit)
    | _ => ([], rest)
  if whole.isEmpty && fraction.isEmpty then none
  let exponent ← match rest with
    | [] => some 0
    | c :: more => if lowerAscii c = 'e' then readExponent more else none
  return scaled (ofDigits 0 (whole ++ fraction)) (exponent - fraction.length)

def infinity : Float := 1.0 / 0.0

def notANumber : Float := 0.0 / 0.0

def readReal (text : List Char) : Option Float :=
  let (negative, body) := match text with
    | '-' :: rest => (true, rest)
    | '+' :: rest => (false, rest)
    | _ => (false, text)
  let word := String.ofList (body.map lowerAscii)
  let magnitude :=
    if word = "inf" || word = "infinity" then some infinity
    else if word = "nan" then some notANumber
    else readUnsignedReal body
  magnitude.map fun x => if negative then -x else x

def positional (count : Nat) (power : Int) : List Char :=
  let ds := digits count
  if 0 ≤ power then ds ++ List.replicate power.toNat '0'
  else
    let places := (-power).toNat
    let padded := List.replicate (places + 1 - ds.length) '0' ++ ds
    let whole := padded.take (padded.length - places)
    let fraction := padded.drop (padded.length - places)
    whole ++ '.' :: fraction

def stripZeros : Nat → (count : Nat) → (power : Int) → Nat × Int
  | 0, count, power => (count, power)
  | fuel + 1, count, power =>
    if count % 10 = 0 then stripZeros fuel (count / 10) (power + 1)
    else (count, power)

def real (x : Float) : String :=
  let bits := x.toBits.toNat
  let fraction := bits % Shortest.leading
  let biased := bits / Shortest.leading % 2048
  if biased = 2047 && fraction ≠ 0 then "NaN"
  else
    let sign := if bits / Shortest.leading ≥ 2048 then "-" else ""
    if biased = 2047 then sign ++ "inf"
    else if biased = 0 && fraction = 0 then sign ++ "0"
    else
      let (mantissa, exponent) : Nat × Int :=
        if biased = 0 then (fraction, -1074)
        else (Shortest.leading + fraction, (biased : Int) - 1075)
      let (count, power) := Shortest.decimal mantissa exponent
      let (count, power) := stripZeros 20 count power
      sign ++ String.ofList (positional count power)

end MqttBroker.Text
