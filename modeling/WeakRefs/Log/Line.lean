import WeakRefs.Log.Filter

/-!
# Written log lines

An event is written as one line: in plain text, or as one object with the level, the target and the
fields, the message being the first of them.
-/

namespace WeakRefs

namespace FieldValue

def inLine : FieldValue → String
  | number n => toString n
  | word w => w
  | text t => "\"" ++ t ++ "\""

end FieldValue

inductive LogLine where
  | plain (text : String)
  | object (level target message : String) (fields : List (String × FieldValue))
  deriving DecidableEq

namespace LogLine

def render (e : Event) : String :=
  let fields := e.fields.map fun f => " " ++ f.1 ++ "=" ++ f.2.inLine
  e.level.name ++ " " ++ e.target ++ ": " ++ e.message ++ String.join fields

/-- The line of an event in the format of a configuration. -/
def ofEvent (config : LogConfig) (e : Event) : LogLine :=
  if config.json then .object e.level.name e.target e.message e.fields else .plain (render e)

end LogLine

structure Log where
  config : LogConfig
  filter : LogFilter
  deriving DecidableEq

namespace Log

def opened (env : Environment) (config : LogConfig) : Log := ⟨config, .ofEnvironment env config⟩

def lines (log : Log) (events : List Event) : List LogLine :=
  (events.filter log.filter.admits).map (LogLine.ofEvent log.config)

end Log

end WeakRefs
