/-!
# Decimal numerals

A numeral is a sign, which may be missing, and then digits with at most one point among them and
possibly an exponent, or one of the words for infinity and for no number.
-/

namespace WeakRefs

namespace Decimal

def unsigned : List Char → List Char
  | '+' :: cs => cs
  | '-' :: cs => cs
  | cs => cs

def areDigits (cs : List Char) : Bool := !cs.isEmpty && cs.all Char.isDigit

def isExponent : List Char → Bool
  | [] => true
  | mark :: cs => mark.toLower = 'e' && areDigits (unsigned cs)

/-- Whether a text is a numeral. -/
def isNumeral (text : List Char) : Bool :=
  let body := unsigned text
  let whole := body.takeWhile Char.isDigit
  let rest := body.dropWhile Char.isDigit
  let fraction := match rest with
    | '.' :: cs => cs.takeWhile Char.isDigit
    | _ => []
  let rest := match rest with
    | '.' :: cs => cs.dropWhile Char.isDigit
    | rest => rest
  areDigits (whole ++ fraction) && isExponent rest
    || ["inf", "infinity", "nan"].contains (String.ofList (body.map Char.toLower))

end Decimal

end WeakRefs
