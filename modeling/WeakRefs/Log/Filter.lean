import WeakRefs.Log.Config
import WeakRefs.Log.Directive

/-!
# Log filters

A filter is a list of directives, written with commas between them. Of those that cover an event the
most specific one decides about it, and an event that none covers is dropped.
-/

namespace WeakRefs

structure LogFilter where
  directives : List LogDirective
  deriving DecidableEq

namespace LogFilter

def mostSpecific? (ds : List LogDirective) : Option LogDirective :=
  ds.foldl (fun best d => some (best.elim d fun b => if d.isLessSpecific b then b else d)) none

def deciding? (f : LogFilter) (e : Event) : Option LogDirective :=
  mostSpecific? (f.directives.filter (·.covers e))

def admits (f : LogFilter) (e : Event) : Bool :=
  (f.deciding? e).any fun d => e.level.verbosity ≤ d.verbosity

def upTo (level : Level) : LogFilter := ⟨[{ scope := some "gcref", verbosity := level.verbosity }]⟩

def errorsOnly : LogFilter := ⟨[{ verbosity := Level.error.verbosity }]⟩

/-- Read a filter; empty directives are skipped, and one bad directive spoils the filter. -/
def ofText? (text : String) : Option LogFilter :=
  match ((text.splitOn ",").filter fun piece => !piece.isEmpty).mapM LogDirective.ofText? with
  | some [] => some errorsOnly
  | some directives => some ⟨directives⟩
  | none => none

/-- The filter for a configuration: what the environment says, if it says something readable, and
otherwise the level of the configuration. -/
def ofEnvironment (env : Environment) (config : LogConfig) : LogFilter :=
  ((env.get? "RUST_LOG").bind ofText?).getD (upTo config.level)

end LogFilter

end WeakRefs
