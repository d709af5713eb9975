import MqttBroker.Text.Quantity

/-!
Byte sizes such as `2G512K`, `64KB` or `100`. A size prints with its largest units first and
reads in either spelling of a unit, in any letter case.
-/

namespace MqttBroker.ByteSize

def kilo : Nat := 1024
def mega : Nat := 1024 * kilo
def giga : Nat := 1024 * mega

def unitBytes : Char → Option Nat
  | 'B' => some 1
  | 'K' => some kilo
  | 'M' => some mega
  | 'G' => some giga
  | _ => none

def shortUnits : List Char → List Char
  | [] => []
  | [c] => [c]
  | c :: d :: rest =>
    if (c = 'G' || c = 'M' || c = 'K') && d = 'B' then c :: shortUnits rest
    else c :: shortUnits (d :: rest)

/-- Reads a size: a plain number of bytes, or the sum of its parts. A part without a number and
text that is no part count as zero. Only ASCII letters need capitals here: no capital of another
character is a unit, a digit or a sign. -/
def read (text : String) : Except Overflow Nat :=
  let short := shortUnits ((Text.trim text.toList).map Text.upperAscii)
  match Text.readBelow Word.bound short with
  | some n => .ok n
  | none => Text.quantity unitBytes short

def unitText (count : Nat) (unit : Char) : List Char :=
  if count = 0 then [] else Text.digits count ++ [unit]

def display (n : Nat) : String :=
  if n = 0 then "0B"
  else String.ofList (unitText (n / giga) 'G' ++ unitText (n % giga / mega) 'M' ++
    unitText (n % mega / kilo) 'K' ++ unitText (n % kilo) 'B')

inductive Refusal
  | overflow (cause : Overflow)
  | malformed (text : String)
deriving DecidableEq

def Refusal.message : Refusal → String
  | .overflow cause => cause.message
  | .malformed text => "invalid byte size `" ++ text ++ "`"

/-- Reads a size from a configuration. A text that reads as zero is refused if a digit stands
after its leading zeros. -/
def decode (text : String) : Except Refusal Nat :=
  match read text with
  | .error cause => .error (.overflow cause)
  | .ok n =>
    if n = 0 && (text.toList.dropWhile (· = '0')).any Text.isDigit then
      .error (.malformed text)
    else .ok n

end MqttBroker.ByteSize
