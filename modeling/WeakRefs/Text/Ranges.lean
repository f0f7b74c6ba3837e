/-!
# Classes of characters as lists of closed ranges of code points
-/

namespace WeakRefs

namespace Ranges

def contain (ranges : List (Nat × Nat)) (n : Nat) : Bool :=
  ranges.any fun r => r.1 ≤ n && n ≤ r.2

end Ranges

end WeakRefs
