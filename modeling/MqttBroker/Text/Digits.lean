import MqttBroker.Arithmetic

/-!
Numbers in text: the decimal digits of a number, numbers of bounded size read back, and numbers and
bytes in hexadecimal digits.
-/

namespace MqttBroker.Text

def isDigit (c : Char) : Bool := '0' ≤ c && c ≤ '9'

def digitValue (c : Char) : Nat := c.toNat - '0'.toNat

def digitChar (d : Nat) : Char := Char.ofNat ('0'.toNat + d)

def ofDigits (acc : Nat) : List Char → Nat
  | [] => acc
  | c :: rest => ofDigits (acc * 10 + digitValue c) rest

def digits (n : Nat) : List Char :=
  if n < 10 then [digitChar n] else digits (n / 10) ++ [digitChar (n % 10)]

def decimal (n : Nat) : String := String.ofList (digits n)

def decimalInt (n : Int) : String :=
  if n < 0 then "-" ++ decimal n.natAbs else decimal n.natAbs

def readBelow (bound : Nat) (text : List Char) : Option Nat :=
  let body := match text with
    | '+' :: rest => rest
    | _ => text
  if body.isEmpty || !body.all isDigit then none
  else
    let n := ofDigits 0 body
    if n < bound then some n else none

def readSigned (text : List Char) : Option Int :=
  match text with
  | '-' :: rest =>
    if rest.isEmpty || !rest.all isDigit then none
    else
      let n : Int := -(ofDigits 0 rest : Int)
      if SignedWord.inRange n then some n else none
  | _ => (readBelow (SignedWord.high + 1).toNat text).map Int.ofNat

/-! Hexadecimal digits -/

def hexDigit (n : Nat) : Char :=
  if n < 10 then digitChar n else Char.ofNat ('a'.toNat + (n - 10))

def hexValue (c : Char) : Option Nat :=
  if isDigit c then some (digitValue c)
  else if 'a' ≤ c && c ≤ 'f' then some (c.toNat - 'a'.toNat + 10)
  else if 'A' ≤ c && c ≤ 'F' then some (c.toNat - 'A'.toNat + 10)
  else none

def readHex (ds : List Char) : Option Nat :=
  ds.foldlM (fun n c => (hexValue c).map (n * 16 + ·)) 0

def hex (bytes : List UInt8) : String :=
  String.ofList (bytes.flatMap fun b => [hexDigit (b.toNat / 16), hexDigit (b.toNat % 16)])

def unhex : List Char → List UInt8
  | a :: b :: rest =>
    match readHex [a, b] with
    | some n => UInt8.ofNat n :: unhex rest
    | none => []
  | _ => []

end MqttBroker.Text
