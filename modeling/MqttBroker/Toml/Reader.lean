import MqttBroker.Toml.Scalar
import MqttBroker.Toml.Table

/-!
Reading TOML documents, version 1.1. Each reader takes what it reads off the front of the text
and gives the rest.
-/

namespace MqttBroker.Toml

def isBlank (c : Char) : Bool := c = ' ' || c = '\t'

def isControl (c : Char) : Bool := (c.toNat < 0x20 && c ≠ '\t') || c.toNat = 0x7f

def skipBlanks (text : List Char) : List Char := text.dropWhile isBlank

def afterBreak : List Char → Option (List Char)
  | '\n' :: rest => some rest
  | '\r' :: '\n' :: rest => some rest
  | _ => none

def skipSpace (inComment : Bool) : List Char → Option (List Char)
  | [] => some []
  | '\n' :: rest => skipSpace false rest
  | '\r' :: '\n' :: rest => skipSpace false rest
  | c :: rest =>
    if inComment then (if isControl c then none else skipSpace true rest)
    else if isBlank c then skipSpace false rest
    else if c = '#' then skipSpace true rest
    else some (c :: rest)

def lineEnd (text : List Char) : Option (List Char) :=
  match skipBlanks text with
  | [] => some []
  | '#' :: rest => some ('#' :: rest)
  | rest => afterBreak rest

/-! Strings -/

def simpleEscape (c : Char) : Option Char :=
  match c with
  | 'b' => some '\x08'
  | 't' => some '\t'
  | 'n' => some '\n'
  | 'f' => some '\x0c'
  | 'r' => some '\r'
  | 'e' => some '\x1b'
  | '"' => some '"'
  | '\\' => some '\\'
  | _ => none

def numbered (ds : List Char) : Option Char := do
  let n ← Text.readHex ds
  if n < 0xD800 || (0xE000 ≤ n && n < 0x110000) then return Char.ofNat n else none

def within (c : Char) (read : Option (List Char × List Char)) : Option (List Char × List Char) :=
  read.map fun (content, rest) => (c :: content, rest)

def readQuoted : List Char → Option (List Char × List Char)
  | [] => none
  | '"' :: rest => some ([], rest)
  | '\\' :: 'x' :: a :: b :: rest => do within (← numbered [a, b]) (readQuoted rest)
  | '\\' :: 'u' :: a :: b :: c :: d :: rest => do
    within (← numbered [a, b, c, d]) (readQuoted rest)
  | '\\' :: 'U' :: a :: b :: c :: d :: e :: f :: g :: h :: rest => do
    within (← numbered [a, b, c, d, e, f, g, h]) (readQuoted rest)
  | '\\' :: c :: rest => do within (← simpleEscape c) (readQuoted rest)
  | c :: rest => if isControl c then none else within c (readQuoted rest)

def readLiteral : List Char → Option (List Char × List Char)
  | [] => none
  | '\'' :: rest => some ([], rest)
  | c :: rest => if isControl c then none else within c (readLiteral rest)

/-- The end of a string of several lines, where a run of quotes begins: three of them close it,
and up to two before those belong to it. -/
def closing (quote : Char) (text : List Char) : Option (List Char × List Char) :=
  let run := min 5 (text.takeWhile (· = quote)).length
  if run < 3 then none else some (List.replicate (run - 3) quote, text.drop run)

def endsLine (text : List Char) : Bool := (afterBreak (skipBlanks text)).isSome

def readLongQuoted (skipping : Bool) : List Char → Option (List Char × List Char)
  | [] => none
  | '\n' :: rest =>
    if skipping then readLongQuoted true rest else within '\n' (readLongQuoted false rest)
  | '\r' :: '\n' :: rest =>
    if skipping then readLongQuoted true rest else within '\n' (readLongQuoted false rest)
  | '"' :: rest =>
    match closing '"' ('"' :: rest) with
    | some done => some done
    | none => within '"' (readLongQuoted false rest)
  | '\\' :: 'x' :: a :: b :: rest => do
    within (← numbered [a, b]) (readLongQuoted false rest)
  | '\\' :: 'u' :: a :: b :: c :: d :: rest => do
    within (← numbered [a, b, c, d]) (readLongQuoted false rest)
  | '\\' :: 'U' :: a :: b :: c :: d :: e :: f :: g :: h :: rest => do
    within (← numbered [a, b, c, d, e, f, g, h]) (readLongQuoted false rest)
  | '\\' :: c :: rest =>
    match simpleEscape c with
    | some e => within e (readLongQuoted false rest)
    | none => if endsLine (c :: rest) then readLongQuoted true (c :: rest) else none
  | c :: rest =>
    if skipping && isBlank c then readLongQuoted true rest
    else if isControl c then none
    else within c (readLongQuoted false rest)

def readLongLiteral : List Char → Option (List Char × List Char)
  | [] => none
  | '\n' :: rest => within '\n' (readLongLiteral rest)
  | '\r' :: '\n' :: rest => within '\n' (readLongLiteral rest)
  | '\'' :: rest =>
    match closing '\'' ('\'' :: rest) with
    | some done => some done
    | none => within '\'' (readLongLiteral rest)
  | c :: rest => if isControl c then none else within c (readLongLiteral rest)

def skipFirstBreak (text : List Char) : List Char := (afterBreak text).getD text

def readString (text : List Char) : Option (Option (List Char × List Char)) :=
  match text with
  | '"' :: '"' :: '"' :: rest => some (readLongQuoted false (skipFirstBreak rest))
  | '"' :: rest => some (readQuoted rest)
  | '\'' :: '\'' :: '\'' :: rest => some (readLongLiteral (skipFirstBreak rest))
  | '\'' :: rest => some (readLiteral rest)
  | _ => none

/-! Keys -/

def isBare (c : Char) : Bool :=
  ('a' ≤ c && c ≤ 'z') || ('A' ≤ c && c ≤ 'Z') || Text.isDigit c || c = '_' || c = '-'

def readPart (text : List Char) : Option (String × List Char) :=
  match text with
  | '"' :: rest => (readQuoted rest).map fun (part, rest) => (String.ofList part, rest)
  | '\'' :: rest => (readLiteral rest).map fun (part, rest) => (String.ofList part, rest)
  | _ =>
    let part := text.takeWhile isBare
    if part.isEmpty then none else some (String.ofList part, text.dropWhile isBare)

def readKey : Nat → List Char → Option ((List String × String) × List Char)
  | 0, _ => none
  | fuel + 1, text => do
    let (part, rest) ← readPart (skipBlanks text)
    match skipBlanks rest with
    | '.' :: more =>
      let ((path, key), rest) ← readKey fuel more
      return ((part :: path, key), rest)
    | rest => return (([], part), rest)

/-! Values -/

def isWordChar (c : Char) : Bool := isBare c || c = '+' || c = '.' || c = ':'

/-- A plain value. A date and a time may have one space between them. -/
def readWord (text : List Char) : Option (ConfigValue × List Char) :=
  let word := text.takeWhile isWordChar
  match text.dropWhile isWordChar with
  | ' ' :: c :: rest =>
    if (readDate word).any (·.2.isEmpty) && Text.isDigit c then
      (readScalar (word ++ ' ' :: (c :: rest).takeWhile isWordChar)).map
        fun v => (v, (c :: rest).dropWhile isWordChar)
    else (readScalar word).map fun v => (v, ' ' :: c :: rest)
  | rest => (readScalar word).map fun v => (v, rest)

/-- What is asked for next while a value is read: a value, the items of an array after its
opening or after an item, or the entries of an inline table likewise. -/
inductive Goal
  | value
  | items
  | moreItems
  | entries (found : Entries)
  | moreEntries (found : Entries)

/-- Reads a value, or the rest of an array or inline table up to its closing bracket. Of two steps
one takes a character off the text, so its length bounds the steps. -/
def readGoal : Nat → Goal → List Char → Option (ConfigValue × List Char)
  | 0, _, _ => none
  | fuel + 1, .value, text =>
    match readString text with
    | some read => read.map fun (content, rest) => (.text (String.ofList content), rest)
    | none =>
      match text with
      | '[' :: rest => readGoal fuel .items rest
      | '\x7b' :: rest => readGoal fuel (.entries []) rest
      | _ => readWord text
  | fuel + 1, .items, text => do
    match ← skipSpace false text with
    | ']' :: rest => return (.list [], rest)
    | rest =>
      let (first, rest) ← readGoal fuel .value rest
      match ← readGoal fuel .moreItems rest with
      | (.list others, rest) => return (.list (first :: others), rest)
      | _ => none
  | fuel + 1, .moreItems, text => do
    match ← skipSpace false text with
    | ']' :: rest => return (.list [], rest)
    | ',' :: rest => readGoal fuel .items rest
    | _ => none
  | fuel + 1, .entries found, text => do
    match ← skipSpace false text with
    | '\x7d' :: rest => return (.table (toEntries found), rest)
    | rest =>
      let ((path, key), rest) ← readKey fuel rest
      let rest ← match rest with | '=' :: more => some (skipBlanks more) | _ => none
      let (v, rest) ← readGoal fuel .value rest
      readGoal fuel (.moreEntries (← found.set path key v)) rest
  | fuel + 1, .moreEntries found, text => do
    match ← skipSpace false text with
    | '\x7d' :: rest => return (.table (toEntries found), rest)
    | ',' :: rest => readGoal fuel (.entries found) rest
    | _ => none

/-! Documents -/

def readLines : Nat → (header : List String) → Entries → List Char → Option Entries
  | 0, _, _, _ => none
  | fuel + 1, header, entries, text => do
    match ← skipSpace false text with
    | [] => return entries
    | '[' :: '[' :: rest =>
      let ((path, key), rest) ← readKey fuel rest
      let rest ← match rest with | ']' :: ']' :: more => lineEnd more | _ => none
      readLines fuel (path ++ [key]) (← entries.openItem path key) rest
    | '[' :: rest =>
      let ((path, key), rest) ← readKey fuel rest
      let rest ← match rest with | ']' :: more => lineEnd more | _ => none
      readLines fuel (path ++ [key]) (← entries.openTable path key) rest
    | rest =>
      let ((path, key), rest) ← readKey fuel rest
      let rest ← match rest with | '=' :: more => some (skipBlanks more) | _ => none
      let (v, rest) ← readGoal (2 * rest.length + 4) .value rest
      readLines fuel header (← entries.setUnder header path key v) (← lineEnd rest)

def read? (document : String) : Option (List (String × ConfigValue)) :=
  let text := match document.toList with
    | c :: rest => if c.toNat = 0xFEFF then rest else c :: rest
    | [] => []
  (readLines (text.length + 2) [] [] text).map toEntries

end MqttBroker.Toml
