/-!
# Objects of the heap

An object is named by the slot that holds it and by the generation of that slot. Its kind decides
how finalizers attach to it and when it dies.
-/

namespace WeakRefs

/-- The name of a heap object: slot and generation. -/
structure ObjectRef where
  index : Nat
  generation : UInt32
  deriving DecidableEq

inductive ObjectKind where
  /-- Carries its own finalizers and dies with its last root. -/
  | emittable
  /-- Finalizers go through the side table; only a collection reclaims it. -/
  | plain
  /-- Refuses finalizers; only a collection reclaims it. -/
  | immediate
  deriving DecidableEq

namespace ObjectKind

def name : ObjectKind → String
  | .emittable => "Emittable"
  | .plain => "Plain"
  | .immediate => "Immediate"

def ofName? : String → Option ObjectKind
  | "Emittable" => some .emittable
  | "Plain" => some .plain
  | "Immediate" => some .immediate
  | _ => none

def all : List ObjectKind := [.emittable, .plain, .immediate]

end ObjectKind

inductive Affiliation where
  | direct
  | indirect
  deriving DecidableEq

namespace Affiliation

def isIndirect : Affiliation → Bool
  | .direct => false
  | .indirect => true

def name : Affiliation → String
  | .direct => "Direct"
  | .indirect => "Indirect"

end Affiliation

end WeakRefs
