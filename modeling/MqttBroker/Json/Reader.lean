import MqttBroker.Json.Value

/-!
Reading JSON text. Each reader takes what it reads off the front of the text and gives the rest.
-/

namespace MqttBroker.JsonValue

def isSpace (c : Char) : Bool := c = ' ' || c = '\t' || c = '\n' || c = '\r'

def skipSpace (text : List Char) : List Char := text.dropWhile isSpace

inductive Piece
  | char (c : Char)
  | control (c : Char)
  | half (unit : Nat)

def isHigh (unit : Nat) : Bool := 0xD800 ≤ unit && unit < 0xDC00

def isLow (unit : Nat) : Bool := 0xDC00 ≤ unit && unit < 0xE000

def simpleEscape (c : Char) : Option Char :=
  match c with
  | '"' => some '"'
  | '\\' => some '\\'
  | '/' => some '/'
  | 'b' => some '\x08'
  | 'f' => some '\x0c'
  | 'n' => some '\n'
  | 'r' => some '\r'
  | 't' => some '\t'
  | _ => none

def readPieces : List Char → Option (List Piece × List Char)
  | [] => none
  | '"' :: rest => some ([], rest)
  | '\\' :: 'u' :: a :: b :: c :: d :: rest => do
    let unit ← Text.readHex [a, b, c, d]
    let (pieces, rest) ← readPieces rest
    if isHigh unit || isLow unit then return (.half unit :: pieces, rest)
    else return (.char (Char.ofNat unit) :: pieces, rest)
  | '\\' :: c :: rest => do
    let e ← simpleEscape c
    let (pieces, rest) ← readPieces rest
    return (.char e :: pieces, rest)
  | c :: rest => do
    let (pieces, rest) ← readPieces rest
    return ((if c.toNat < 0x20 then .control c else .char c) :: pieces, rest)

def joinHalves : List Piece → List Piece
  | .half high :: .half low :: rest =>
    if isHigh high && isLow low then
      .char (Char.ofNat (0x10000 + (high - 0xD800) * 0x400 + (low - 0xDC00))) :: joinHalves rest
    else .half high :: joinHalves (.half low :: rest)
  | piece :: rest => piece :: joinHalves rest
  | [] => []

def isControl : Piece → Bool
  | .control _ => true
  | _ => false

def pieceChar? : Piece → Option Char
  | .char c => some c
  | _ => none

/-- The bytes of a piece; a lone half is written as a code point is. -/
def pieceBytes : Piece → Bytes
  | .char c => utf8 (String.ofList [c])
  | .control c => utf8 (String.ofList [c])
  | .half unit =>
    [UInt8.ofNat (0xE0 + unit / 0x1000), UInt8.ofNat (0x80 + unit / 0x40 % 0x40),
     UInt8.ofNat (0x80 + unit % 0x40)]

def readString (text : List Char) : Option (JsonValue × List Char) := do
  let (pieces, rest) ← readPieces text
  let pieces := joinHalves pieces
  match pieces.mapM pieceChar? with
  | some chars => return (.string (String.ofList chars), rest)
  | none => return (.bytes (pieces.flatMap pieceBytes) (pieces.any isControl), rest)

def takeDigits (text : List Char) : Option (List Char × List Char) :=
  match text.takeWhile Text.isDigit with
  | [] => none
  | digits => some (digits, text.dropWhile Text.isDigit)

def takeFraction : List Char → Option (List Char × List Char)
  | '.' :: rest => (takeDigits rest).map fun (digits, rest) => ('.' :: digits, rest)
  | text => some ([], text)

def takeExponent : List Char → Option (List Char × List Char)
  | c :: rest =>
    if c = 'e' || c = 'E' then
      match rest with
      | s :: more =>
        if s = '+' || s = '-' then
          (takeDigits more).map fun (digits, rest) => (c :: s :: digits, rest)
        else (takeDigits rest).map fun (digits, rest) => (c :: digits, rest)
      | [] => none
    else some ([], c :: rest)
  | [] => some ([], [])

def takeInteger : List Char → Option (List Char × List Char)
  | '0' :: rest => if rest.head?.any Text.isDigit then none else some (['0'], rest)
  | text => takeDigits text

def ofParts (sign digits fraction exponent : List Char) : JsonValue :=
  let n := Text.ofDigits 0 digits
  if fraction.isEmpty && exponent.isEmpty && !(n = 0 && !sign.isEmpty) then
    .integer (if sign.isEmpty then n else -(n : Int))
  else .real (String.ofList (sign ++ digits ++ fraction ++ exponent))

def readMagnitude (sign text : List Char) : Option (JsonValue × List Char) := do
  let (digits, rest) ← takeInteger text
  let (fraction, rest) ← takeFraction rest
  let (exponent, rest) ← takeExponent rest
  return (ofParts sign digits fraction exponent, rest)

def readNumber : List Char → Option (JsonValue × List Char)
  | '-' :: rest => readMagnitude ['-'] rest
  | text => readMagnitude [] text

def takeWord (word : String) (text : List Char) : Option (List Char) :=
  if word.toList.isPrefixOf text then some (text.drop word.toList.length) else none

/-- What stands between two brackets, behind the opening one: nothing, or what `read` takes off
together with the closing one. -/
def readEnclosed {α : Type} (close : Char) (read : List Char → Option (List α × List Char))
    (text : List Char) : Option (List α × List Char) :=
  let text := skipSpace text
  if text.head? = some close then some ([], text.tail) else read text

/-- What comes behind an element: the closing bracket, or a comma and what `read` takes off then. -/
def readBehind {α : Type} (close : Char) (read : List Char → Option (List α × List Char))
    (element : α) (text : List Char) : Option (List α × List Char) :=
  match skipSpace text with
  | c :: rest =>
    if c = close then some ([element], rest)
    else if c = ',' then (read rest).map fun (others, rest) => (element :: others, rest)
    else none
  | [] => none

def readField (read : List Char → Option (JsonValue × List Char)) (text : List Char) :
    Option ((String × JsonValue) × List Char) :=
  match skipSpace text with
  | '"' :: rest => do
    let (key, rest) ← readString rest
    match key, skipSpace rest with
    | .string key, ':' :: rest => (read rest).map fun (value, rest) => ((key, value), rest)
    | _, _ => none
  | _ => none

mutual

/-- A value, spaces before it skipped. The fuel bounds the number of values and is enough if it
is the length of the text. -/
def readValue : Nat → List Char → Option (JsonValue × List Char)
  | 0, _ => none
  | fuel + 1, text =>
    match skipSpace text with
    | '"' :: rest => readString rest
    | '[' :: rest =>
      (readEnclosed ']' (readItems fuel) rest).map fun (items, rest) => (.array items, rest)
    | '\x7b' :: rest =>
      (readEnclosed '\x7d' (readFields fuel) rest).map fun (fields, rest) => (.object fields, rest)
    | 'n' :: rest => (takeWord "ull" rest).map fun rest => (.null, rest)
    | 't' :: rest => (takeWord "rue" rest).map fun rest => (.bool true, rest)
    | 'f' :: rest => (takeWord "alse" rest).map fun rest => (.bool false, rest)
    | text => readNumber text

def readItems : Nat → List Char → Option (List JsonValue × List Char)
  | 0, _ => none
  | fuel + 1, text => do
    let (item, rest) ← readValue fuel text
    readBehind ']' (readItems fuel) item rest

def readFields : Nat → List Char → Option (List (String × JsonValue) × List Char)
  | 0, _ => none
  | fuel + 1, text => do
    let (field, rest) ← readField (readValue fuel) text
    readBehind '\x7d' (readFields fuel) field rest

end

def read? (text : String) : Option JsonValue :=
  let chars := text.toList
  match readValue (chars.length + 1) chars with
  | some (v, rest) => if (skipSpace rest).isEmpty then some v else none
  | none => none

end MqttBroker.JsonValue
