/-!
# Identities of runtimes and of weak reference handles

Both kinds of identity are handed out by the session from one upwards and never again. They are
unbounded numbers where a 64-bit counter would wrap: 2 ^ 64 of either are taken as out of reach.
-/

namespace WeakRefs

structure InstanceId where
  raw : Nat
  deriving DecidableEq

/-- Identity of one weak reference, and the key under which it is pinned. -/
structure HandleId where
  raw : Nat
  deriving DecidableEq

namespace HandleId

def sorted (hs : List HandleId) : List HandleId :=
  hs.mergeSort fun a b => a.raw ≤ b.raw

end HandleId

namespace InstanceId

def insertAscending (x : InstanceId) : List InstanceId → List InstanceId
  | [] => [x]
  | y :: rest =>
    if x.raw < y.raw then x :: y :: rest
    else if x.raw = y.raw then y :: rest
    else y :: insertAscending x rest

def ascending (xs : List InstanceId) : List InstanceId :=
  xs.foldr insertAscending []

end InstanceId

end WeakRefs
