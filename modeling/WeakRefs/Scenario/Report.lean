import WeakRefs.Session.Op

/-!
# Reports on the state of a session
-/

namespace WeakRefs

structure HeapReport where
  live : Nat
  pinned : Nat
  pending : Nat
  stats : HeapStats
  deriving DecidableEq

structure Report where
  heaps : List (Option HeapReport)
  refs : List (Option RefInfo)
  maps : List (Option Nat)
  pins : List Nat
  deriving DecidableEq

namespace Session

def heapReport (s : Session) (heap : Heap Finalizer) : HeapReport where
  live := heap.liveCount
  pinned := (s.pinned heap.pins).size
  pending := heap.pendingCount
  stats := heap.stats

/-- The report on a session in which the given pin sets have names. -/
def report (s : Session) (pins : List Nat) : Report where
  heaps := s.collectors.toList.map fun c => c.map fun c => s.heapReport c.heap
  refs := s.refs.toList.map fun r => r.map s.inspect
  maps := s.maps.toList.map fun m => m.map WeakValueMap.size
  pins := pins.map fun p => (s.pinned p).size

end Session

end WeakRefs
