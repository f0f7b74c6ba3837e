/-!
# Cutting texts by bytes

Positions in a text are numbers of bytes of its UTF-8 form. A cut succeeds only between characters.
-/

namespace WeakRefs

def byteLength : List Char → Nat
  | [] => 0
  | c :: cs => c.utf8Size + byteLength cs

/-- What stands from a position on. -/
def dropBytes? : Nat → List Char → Option (List Char)
  | 0, cs => some cs
  | _ + 1, [] => none
  | n + 1, c :: cs => if c.utf8Size ≤ n + 1 then dropBytes? (n + 1 - c.utf8Size) cs else none

def takeBytes? : Nat → List Char → Option (List Char)
  | 0, _ => some []
  | _ + 1, [] => none
  | n + 1, c :: cs =>
    if c.utf8Size ≤ n + 1 then (takeBytes? (n + 1 - c.utf8Size) cs).map (c :: ·) else none

structure Extent where
  start : Nat
  stop : Nat
  deriving DecidableEq

def Extent.cut? (e : Extent) (cs : List Char) : Option (List Char) :=
  (dropBytes? e.start cs).bind (takeBytes? (e.stop - e.start))

end WeakRefs
