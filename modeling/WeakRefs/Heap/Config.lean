import WeakRefs.Environment

/-!
# Heap configuration
-/

namespace WeakRefs

inductive TeardownPolicy where
  | fire
  | drop
  deriving DecidableEq

namespace TeardownPolicy

def ofName? : String → Option TeardownPolicy
  | "fire" => some .fire
  | "drop" => some .drop
  | _ => none

def label : TeardownPolicy → String
  | .fire => "Fire"
  | .drop => "Drop"

end TeardownPolicy

/-- The settings of a heap; the capacity is reserved up front and bounds nothing. -/
structure HeapConfig where
  teardown : TeardownPolicy := .fire
  capacity : Nat := 64
  deriving DecidableEq

namespace HeapConfig

/-- The case of letters in the name of the policy does not matter, and a word that names no policy
means `fire`. -/
def ofEnvironment (env : Environment) : HeapConfig :=
  match env.get? "GCREF_TEARDOWN" with
  | some word => { teardown := (TeardownPolicy.ofName? word.toLower).getD .fire }
  | none => {}

end HeapConfig

end WeakRefs
