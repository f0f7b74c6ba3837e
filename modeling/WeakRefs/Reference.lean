import WeakRefs.Heap.Object
import WeakRefs.Identity

/-!
# Weak references

A weak reference observes an object without holding a root on it. Its binding is the cell that it
shares with the finalizer on the object, the way this is attached, and the runtime and the pin set
of the collector.
-/

namespace WeakRefs

/-- The current binding of a reference. -/
structure Binding where
  cell : Nat
  affiliation : Affiliation
  runtime : InstanceId
  pins : Nat
  deriving DecidableEq

structure WeakReference where
  id : HandleId
  binding : Option Binding := none
  deriving DecidableEq

namespace WeakReference

/-- How the current finalizer is attached, `none` on an empty reference. -/
def affiliation? (r : WeakReference) : Option Affiliation := r.binding.map Binding.affiliation

def runtime? (r : WeakReference) : Option InstanceId := r.binding.map Binding.runtime

def isIndirect (r : WeakReference) : Bool := r.affiliation?.any Affiliation.isIndirect

def emptied (r : WeakReference) : WeakReference := { r with binding := none }

@[simp] theorem id_emptied (r : WeakReference) : r.emptied.id = r.id := rfl

end WeakReference

end WeakRefs
