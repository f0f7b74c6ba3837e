import WeakRefs.Finalizer
import WeakRefs.Heap.Basic

/-!
# Collectors

A collector does what its heap does, unless a script makes it refuse a finalizer, run it at once,
hold it back or lose it. It may also answer the question of reachability as it likes.
-/

namespace WeakRefs

/-- How one definition of a finalizer is handled. -/
inductive Directive where
  | pass
  | fail (error : RefError)
  | now (affiliation : Affiliation)
  /-- Hold the finalizer back until somebody fires it. -/
  | stash (affiliation : Affiliation)
  /-- Discard the finalizer and claim success. -/
  | lose (affiliation : Affiliation)
  deriving DecidableEq

namespace Directive

def ofName? : String → Option Directive
  | "pass" => some .pass
  | "NotFinalizable" => some (.fail (.notFinalizable "Scripted"))
  | "DeadObject" => some (.fail .deadObject)
  | "HeapExhausted" => some (.fail .heapExhausted)
  | "now_direct" => some (.now .direct)
  | "now_indirect" => some (.now .indirect)
  | "stash_direct" => some (.stash .direct)
  | "stash_indirect" => some (.stash .indirect)
  | "lose_direct" => some (.lose .direct)
  | "lose_indirect" => some (.lose .indirect)
  | _ => none

end Directive

/-- A heap with the script that stands between it and the references. -/
structure Collector where
  heap : Heap Finalizer
  script : List Directive := []
  stash : List Finalizer := []
  reach : Table ObjectRef Bool := ∅

namespace Collector

def isReachable (c : Collector) (r : ObjectRef) : Bool :=
  (c.reach.get? r).getD (c.heap.isReachable r)

def overrule (c : Collector) (r : ObjectRef) : Option Bool → Collector
  | some answer => { c with reach := c.reach.insert r answer }
  | none => { c with reach := c.reach.erase r }

def nextDirective (c : Collector) : Directive := c.script.headD .pass

def advance (c : Collector) : Collector := { c with script := c.script.tail }

end Collector

end WeakRefs
