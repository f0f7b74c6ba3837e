import WeakRefs.Text.Ranges

/-!
# Blanks

The characters with the Unicode property White_Space.
-/

namespace WeakRefs

namespace Blank

def ranges : List (Nat × Nat) :=
  [(0x09, 0x0D), (0x20, 0x20), (0x85, 0x85), (0xA0, 0xA0), (0x1680, 0x1680), (0x2000, 0x200A),
   (0x2028, 0x2029), (0x202F, 0x202F), (0x205F, 0x205F), (0x3000, 0x3000)]

def isBlank (c : Char) : Bool := Ranges.contain ranges c.toNat

def dropLeading (cs : List Char) : List Char := cs.dropWhile isBlank

def dropTrailing (cs : List Char) : List Char := (cs.reverse.dropWhile isBlank).reverse

end Blank

end WeakRefs
