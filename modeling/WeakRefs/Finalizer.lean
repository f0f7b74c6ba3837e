import WeakRefs.Identity

/-!
# Finalizers

A finalizer is a value that says what to do when it is delivered. A bind defines one on its target,
a map insert another one on its value, and a user may define further ones.
-/

namespace WeakRefs

/-- An action of a user finalizer. References, maps and pin sets are named by their numbers. -/
inductive Action where
  | pin (handle : HandleId)
  | unpin (handle : HandleId)
  | isAlive (runtime : InstanceId)
  | pinCount (pins : Nat)
  | isBound (ref : Nat)
  | release (ref : Nat)
  | dropRef (ref : Nat)
  | mapSize (map : Nat)
  | dropMap (map : Nat)
  deriving DecidableEq

inductive ActionReply where
  | done
  | flag (b : Bool)
  | count (n : Nat)
  | gone
  /-- The reference or map is in use by the very operation that delivers the finalizer. -/
  | busy
  deriving DecidableEq

inductive Finalizer where
  /-- End the binding of this cell, and the pin of this handle with it. -/
  | endBinding (cell : Nat) (handle : HandleId)
  | report (map : Nat) (key : String) (handle : HandleId)
  | user (label : String) (actions : List Action)
  deriving DecidableEq

structure Delivery where
  label : String
  replies : List ActionReply
  deriving DecidableEq

end WeakRefs
