import MqttBroker.Text.Quantity

/-!
Log levels and log targets, and the names they are read from.
-/

namespace MqttBroker.Log

inductive Level
  | critical
  | error
  | warning
  | info
  | debug
  | trace
deriving DecidableEq

namespace Level

def all : List Level := [critical, error, warning, info, debug, trace]

def rank : Level → Nat
  | .critical => 1
  | .error => 2
  | .warning => 3
  | .info => 4
  | .debug => 5
  | .trace => 6

def name : Level → String
  | .critical => "CRITICAL"
  | .error => "ERROR"
  | .warning => "WARNING"
  | .info => "INFO"
  | .debug => "DEBUG"
  | .trace => "TRACE"

def shortName : Level → String
  | .critical => "CRIT"
  | .error => "ERRO"
  | .warning => "WARN"
  | .info => "INFO"
  | .debug => "DEBG"
  | .trace => "TRCE"

def begins (text name : String) : Bool :=
  (text.toList.map Text.upperAscii).isPrefixOf name.toList

/-- Reads a level from the beginning of its name or, failing that, of its short name. The empty
text and beginnings of `OFF` name no level. -/
def ofText? (text : String) : Option Level :=
  if begins text "OFF" then none
  else (all.find? fun level => begins text level.name) <|>
    (all.find? fun level => begins text level.shortName)

end Level

inductive Target
  | off
  | file
  | console
  | both
deriving DecidableEq

namespace Target

def name : Target → String
  | .off => "off"
  | .file => "file"
  | .console => "console"
  | .both => "both"

def toFile : Target → Bool
  | .file => true
  | .both => true
  | _ => false

def toConsole : Target → Bool
  | .console => true
  | .both => true
  | _ => false

def ofText? (text : String) : Option Target :=
  [off, file, console, both].find? fun target =>
    target.name.toList = text.toList.map Text.lowerAscii

end Target

def unknownTarget (text : String) : String :=
  "unknown log target `" ++ text ++ "`, expected off, file, console or both"

def unknownLevel (text : String) : String := "unknown log level `" ++ text ++ "`"

end MqttBroker.Log
