import WeakRefs.Environment
import WeakRefs.Event

/-!
# Log configuration
-/

namespace WeakRefs

structure LogConfig where
  level : Level := .info
  json : Bool := false
  spans : Bool := false
  deriving DecidableEq

namespace LogConfig

def quiet : LogConfig := { level := .error }

def verbose : LogConfig := { level := .trace, spans := true }

def ofName? : String → Option LogConfig
  | "quiet" => some quiet
  | "verbose" => some verbose
  | "default" => some {}
  | _ => none

/-- A word that names no level means `info`, and the two switches are on where their variable is
set, to whatever text. -/
def ofEnvironment (env : Environment) : LogConfig where
  level := ((env.get? "GCREF_LOG_LEVEL").bind Level.ofWord?).getD .info
  json := env.isSet "GCREF_LOG_JSON"
  spans := env.isSet "GCREF_LOG_SPANS"

end LogConfig

end WeakRefs
