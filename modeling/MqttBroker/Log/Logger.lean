import MqttBroker.Settings.Basic

/-!
Loggers: which records are kept, and what they look like in the log file.
-/

namespace MqttBroker.Log

structure Record where
  level : Level
  message : String

structure Logger where
  target : Target
  path : Option String
  level : Level

inductive LoggerError
  | noDirectory (dir : String)
  | installed
deriving DecidableEq

def LoggerError.message : LoggerError → String
  | .noDirectory dir => "log dir " ++ dir ++ " not usable"
  | .installed => "logger init failed, " ++
      "attempted to set a logger after the logging system was already initialized"

namespace Logger

def ofSettings (s : Log.Settings) : Logger :=
  { target := s.target, path := s.path, level := s.level }

def needsDirectory (s : Log.Settings) : Bool := s.target.toFile && s.dir ≠ ""

def install (s : Log.Settings) (canMakeDirectory isInstalled : Bool) : Except LoggerError Logger :=
  if needsDirectory s && !canMakeDirectory then .error (.noDirectory s.dir)
  else if isInstalled then .error .installed
  else .ok (ofSettings s)

def line (time : String) (r : Record) : String :=
  time ++ " " ++ r.level.shortName ++ " " ++ r.message ++ "\n"

def fileText (l : Logger) (time : String) (records : List Record) : Option String :=
  let kept := records.filter fun r => r.level.rank ≤ l.level.rank
  if l.target.toFile && l.path.isSome && !kept.isEmpty then
    some (String.join (kept.map (line time)))
  else none

/-- The least severe level of the records that programs should make for the logger. They make no
critical ones. -/
def requested (l : Logger) : Level := if l.level = .critical then .error else l.level

end Logger

end MqttBroker.Log
