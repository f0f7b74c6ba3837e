import WeakRefs.Text.Decimal
import WeakRefs.Text.Pattern.Reading

/-!
# Restrictions to fields

A directive may ask for a field by its name, and also for its value: a numeral, or a pattern that
the value is to match.
-/

namespace WeakRefs

structure FieldMatch where
  name : String
  asksValue : Bool
  deriving DecidableEq

namespace FieldMatch

def isValue (text : List Char) : Bool := Decimal.isNumeral text || Pattern.isPattern text

/-- Read the name up to an equals sign, and the value from there up to another. -/
def ofChars? (text : List Char) : Option FieldMatch :=
  let name := String.ofList (text.takeWhile (· ≠ '='))
  match text.dropWhile (· ≠ '=') with
  | [] => some { name, asksValue := false }
  | _ :: rest =>
    if isValue (rest.takeWhile (· ≠ '=')) then some { name, asksValue := true } else none

end FieldMatch

end WeakRefs
