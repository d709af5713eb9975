import MqttBroker.Arithmetic
import MqttBroker.Config.Value
import MqttBroker.Text.Digits

/-!
The plain values of TOML that are no strings: booleans, integers, real numbers and dates. Each is
a single word.
-/

namespace MqttBroker.Toml

def joinDigits (isDigit : Char → Bool) : List Char → Option (List Char)
  | [] => none
  | [c] => if isDigit c then some [c] else none
  | c :: '_' :: rest => if isDigit c then (joinDigits isDigit rest).map (c :: ·) else none
  | c :: rest => if isDigit c then (joinDigits isDigit rest).map (c :: ·) else none

def isDigitBelow (base : Nat) (c : Char) : Bool :=
  (Text.hexValue c).any (· < base)

def readBase (base : Nat) (word : List Char) : Option Nat := do
  let ds ← joinDigits (isDigitBelow base) word
  return ds.foldl (fun n c => n * base + (Text.hexValue c).getD 0) 0

def readWhole (word : List Char) : Option (List Char) := do
  let ds ← joinDigits Text.isDigit word
  if ds.length > 1 && ds.head? = some '0' then none else return ds

def signed : List Char → Bool × List Char
  | '-' :: rest => (true, rest)
  | '+' :: rest => (false, rest)
  | word => (false, word)

def readInteger (word : List Char) : Option Int := do
  let n ← match word with
    | '0' :: 'x' :: rest => (readBase 16 rest).map Int.ofNat
    | '0' :: 'o' :: rest => (readBase 8 rest).map Int.ofNat
    | '0' :: 'b' :: rest => (readBase 2 rest).map Int.ofNat
    | _ =>
      let (negative, body) := signed word
      (readWhole body).map fun ds =>
        if negative then -(Text.ofDigits 0 ds : Int) else Text.ofDigits 0 ds
  if SignedWord.inRange n then some n else none

/-- Reads a real number: it has a fraction, an exponent or both, or is written as a word. Numbers
too large for a 64-bit binary fraction are refused. -/
def readFraction (word : List Char) : Option Float := do
  let (negative, body) := signed word
  let sign (x : Float) : Float := if negative then -x else x
  if body = "inf".toList then return sign Text.infinity
  if body = "nan".toList then return sign Text.notANumber
  let whole ← readWhole (body.takeWhile fun c => Text.isDigit c || c = '_')
  let rest := body.dropWhile fun c => Text.isDigit c || c = '_'
  let (fraction, rest) ← match rest with
    | '.' :: more => do
      let ds ← joinDigits Text.isDigit (more.takeWhile fun c => Text.isDigit c || c = '_')
      pure (ds, more.dropWhile fun c => Text.isDigit c || c = '_')
    | _ => some ([], rest)
  let exponent ← match rest with
    | [] => if fraction.isEmpty then none else some 0
    | e :: more =>
      if e = 'e' || e = 'E' then do
        let (down, ds) := signed more
        let ds ← joinDigits Text.isDigit ds
        pure (if down then -(Text.ofDigits 0 ds : Int) else Text.ofDigits 0 ds)
      else none
  let x := Text.scaled (Text.ofDigits 0 (whole ++ fraction)) (exponent - fraction.length)
  if x == Text.infinity then none else return sign x

def readPair : List Char → Option (Nat × List Char)
  | a :: b :: rest =>
    if Text.isDigit a && Text.isDigit b then some (Text.ofDigits 0 [a, b], rest) else none
  | _ => none

def isLeap (year : Nat) : Bool := year % 4 = 0 && (year % 100 ≠ 0 || year % 400 = 0)

def daysOf (year month : Nat) : Nat :=
  if month = 2 then (if isLeap year then 29 else 28)
  else if [4, 6, 9, 11].contains month then 30 else 31

def readDate : List Char → Option (List Char × List Char)
  | a :: b :: c :: d :: '-' :: rest => do
    let (century, _) ← readPair [a, b]
    let (part, _) ← readPair [c, d]
    let (month, rest) ← readPair rest
    let rest ← match rest with | '-' :: more => some more | _ => none
    let (day, after) ← readPair rest
    if 1 ≤ month && month ≤ 12 && 1 ≤ day && day ≤ daysOf (century * 100 + part) month then
      return ([a, b, c, d, '-'] ++ pairText month ++ '-' :: pairText day, after)
    else none
  | _ => none
where
  pairText (n : Nat) : List Char := [Text.digitChar (n / 10), Text.digitChar (n % 10)]

def fractionText (ds : List Char) : List Char :=
  let kept := (ds.take 9).reverse.dropWhile (· = '0')
  if kept.isEmpty then ['0'] else kept.reverse

def readTime (text : List Char) : Option (List Char × List Char) := do
  let (hour, rest) ← readPair text
  let rest ← match rest with | ':' :: more => some more | _ => none
  let (minute, after) ← readPair rest
  if hour > 23 || minute > 59 then none
  let start := text.take 5
  match after with
  | ':' :: more =>
    let (second, after) ← readPair more
    if second > 60 then none
    let start := start ++ ':' :: more.take 2
    match after with
    | '.' :: more =>
      let ds := more.takeWhile Text.isDigit
      if ds.isEmpty then none
      return (start ++ '.' :: fractionText ds, more.dropWhile Text.isDigit)
    | _ => return (start, after)
  | _ => return (start, after)

def readOffset : List Char → Option (List Char)
  | [] => some []
  | [c] => if c = 'Z' || c = 'z' then some ['Z'] else none
  | sign :: rest => do
    if sign ≠ '+' && sign ≠ '-' then none
    let (hour, after) ← readPair rest
    let after ← match after with | ':' :: more => some more | _ => none
    let (minute, after) ← readPair after
    if hour > 23 || minute > 59 || !after.isEmpty then none
    else if hour = 0 && minute = 0 then return '+' :: rest
    else return sign :: rest

def readMoment (word : List Char) : Option String :=
  match readDate word with
  | some (date, []) => some (String.ofList date)
  | some (date, c :: rest) =>
    if c = 'T' || c = 't' || c = ' ' then do
      let (time, rest) ← readTime rest
      let offset ← readOffset rest
      return String.ofList (date ++ 'T' :: time ++ offset)
    else none
  | none =>
    match readTime word with
    | some (time, []) => some (String.ofList time)
    | _ => none

def readScalar (word : List Char) : Option ConfigValue :=
  if word = "true".toList then some (.boolean true)
  else if word = "false".toList then some (.boolean false)
  else ((readInteger word).map .integer) <|> ((readFraction word).map .real) <|>
    ((readMoment word).map .text)

end MqttBroker.Toml
