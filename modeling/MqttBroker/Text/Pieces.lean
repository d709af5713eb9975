/-!
Text cut at a separator. Every separator ends a piece, so empty pieces are kept and a text
without separators is one piece.
-/

namespace MqttBroker.Text

def pieces (sep : Char) : List Char → List (List Char)
  | [] => [[]]
  | c :: rest =>
    if c = sep then [] :: pieces sep rest
    else match pieces sep rest with
      | [] => [[c]]
      | piece :: more => (c :: piece) :: more

def splitAll (sep : Char) (text : String) : List String :=
  (pieces sep text.toList).map String.ofList

def joinAll (sep : Char) (parts : List String) : String :=
  String.ofList ((parts.map String.toList).intersperse [sep]).flatten

def splitOnce (sep : Char) (text : String) : String × Option String :=
  let chars := text.toList
  let head := chars.takeWhile (· ≠ sep)
  match chars.dropWhile (· ≠ sep) with
  | [] => (String.ofList head, none)
  | _ :: rest => (String.ofList head, some (String.ofList rest))

def startsWith (start text : String) : Bool :=
  start.toList.isPrefixOf text.toList

/-- Every occurrence of the non-empty `old` replaced by `new`, read from the left, occurrences
not overlapping.
The count bounds the characters still to be read. -/
def replaceFrom (old new : List Char) : Nat → List Char → List Char
  | 0, text => text
  | _ + 1, [] => []
  | count + 1, c :: rest =>
    if old.isPrefixOf (c :: rest) then
      new ++ replaceFrom old new count ((c :: rest).drop old.length)
    else c :: replaceFrom old new count rest

/-- `text` with every occurrence of `old` replaced by `new`. The empty text occurs once before
every character and once at the end. -/
def replaceAll (old new text : String) : String :=
  if old = "" then
    String.ofList (new.toList ++ text.toList.flatMap fun c => c :: new.toList)
  else String.ofList (replaceFrom old.toList new.toList text.toList.length text.toList)

end MqttBroker.Text
