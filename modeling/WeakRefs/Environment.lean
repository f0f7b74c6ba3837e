/-!
# Environment variables

A variable is a name and bytes. One whose bytes are not UTF-8 counts as unset.
-/

namespace WeakRefs

structure Environment where
  settings : List (String × ByteArray) := []

namespace Environment

/-- The text of a variable, `none` if it is unset or is no text. -/
def get? (env : Environment) (name : String) : Option String :=
  (env.settings.find? fun v => v.1 = name).bind fun v => String.fromUTF8? v.2

def isSet (env : Environment) (name : String) : Bool := (env.get? name).isSome

end Environment

end WeakRefs
