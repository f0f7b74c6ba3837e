import WeakRefs.Data.Table
import WeakRefs.Error
import WeakRefs.Identity
import WeakRefs.Heap.Config
import WeakRefs.Heap.Object

/-!
# The heap

Objects live in slots, and a freed slot is used again under the next generation, a 32-bit word that
wraps. The heap never runs a finalizer, but hands back what is due, in the order in which it has to
run.
-/

namespace WeakRefs

structure Object (φ : Type) where
  kind : ObjectKind
  /-- Strong roots held by the host; 2 ^ 64 of them are out of reach, so the count never wraps. -/
  roots : Nat := 1
  finalizers : List φ := []

namespace Object
variable {φ : Type}

def isUnrooted (o : Object φ) : Bool := o.roots = 0

end Object

structure Slot (φ : Type) where
  generation : UInt32
  object : Option (Object φ)

/-- Counters of a heap, without bound: 2 ^ 64 of anything counted here is out of reach. -/
structure HeapStats where
  collections : Nat := 0
  objectsReclaimed : Nat := 0
  finalizersRun : Nat := 0
  deriving DecidableEq

/-- A heap of one runtime; `pins` names its set of pinned handles. -/
structure Heap (φ : Type) where
  runtime : InstanceId
  config : HeapConfig
  pins : Nat
  slots : Array (Slot φ) := #[]
  free : List Nat := []
  sideTable : Table ObjectRef (List φ) := ∅
  stats : HeapStats := {}

structure Reclaimed (φ : Type) where
  index : Nat
  due : List φ

/-- What the heap does with a finalizer that somebody defines on a target. -/
inductive Attachment (φ : Type) where
  | kept (heap : Heap φ) (affiliation : Affiliation)
  | due
  | refused (error : RefError)

namespace Heap
variable {φ : Type}

/-- The number of slots that can be named: an index is a 32-bit word. -/
def addressable : Nat := 4294967296

def object? (h : Heap φ) (r : ObjectRef) : Option (Object φ) :=
  h.slots[r.index]?.bind fun s => if s.generation = r.generation then s.object else none

def objectAt? (h : Heap φ) (index : Nat) : Option (Object φ) :=
  h.slots[index]?.bind Slot.object

def generationAt (h : Heap φ) (index : Nat) : UInt32 :=
  (h.slots[index]?.map Slot.generation).getD 0

def refAt (h : Heap φ) (index : Nat) : ObjectRef := ⟨index, h.generationAt index⟩

def setSlot (h : Heap φ) (index : Nat) (s : Slot φ) : Heap φ :=
  { h with slots := h.slots.setIfInBounds index s }

def setObject (h : Heap φ) (r : ObjectRef) (o : Object φ) : Heap φ :=
  h.setSlot r.index ⟨r.generation, some o⟩

def isLive (h : Heap φ) (r : ObjectRef) : Bool := (h.object? r).isSome

def kind? (h : Heap φ) (r : ObjectRef) : Option ObjectKind := (h.object? r).map Object.kind

def isReachable (h : Heap φ) (r : ObjectRef) : Bool := (h.object? r).any fun o => 0 < o.roots

def objects (h : Heap φ) : List (Object φ) := h.slots.toList.filterMap Slot.object

def liveCount (h : Heap φ) : Nat := h.objects.length

def alloc (h : Heap φ) (kind : ObjectKind) : Except RefError (Heap φ × ObjectRef) :=
  match h.free with
  | index :: rest =>
    .ok ({ h with free := rest }.setSlot index ⟨h.generationAt index, some { kind }⟩, h.refAt index)
  | [] =>
    if h.slots.size < addressable then
      .ok ({ h with slots := h.slots.push ⟨0, some { kind }⟩ }, ⟨h.slots.size, 0⟩)
    else .error .heapExhausted

def retain (h : Heap φ) (r : ObjectRef) : Heap φ :=
  match h.object? r with
  | some o => h.setObject r { o with roots := o.roots + 1 }
  | none => h

/-- The finalizers kept for `r`: its own, then those of the side table. -/
def pendingOf (h : Heap φ) (r : ObjectRef) : List φ :=
  ((h.object? r).map Object.finalizers).getD [] ++ (h.sideTable.get? r).getD []

/-- Free the slot `index`, which holds an object, and hand back the finalizers of that object. -/
def reclaim (h : Heap φ) (index : Nat) : Heap φ × Reclaimed φ :=
  let r := h.refAt index
  ({ h with
      slots := h.slots.setIfInBounds index ⟨r.generation + 1, none⟩
      free := index :: h.free
      sideTable := h.sideTable.erase r
      stats := { h.stats with objectsReclaimed := h.stats.objectsReclaimed + 1 } },
    ⟨index, h.pendingOf r⟩)

def reclaimAll (h : Heap φ) : List Nat → Heap φ × List (Reclaimed φ)
  | [] => (h, [])
  | index :: rest =>
    let first := h.reclaim index
    let others := first.1.reclaimAll rest
    (others.1, first.2 :: others.2)

/-- Give up a root; an emittable object without roots is reclaimed on the spot. -/
def release (h : Heap φ) (r : ObjectRef) : Heap φ × List (Reclaimed φ) :=
  match h.object? r with
  | none => (h, [])
  | some o =>
    let o := { o with roots := o.roots - 1 }
    let h := h.setObject r o
    if o.isUnrooted ∧ o.kind = .emittable then h.reclaimAll [r.index] else (h, [])

def unrooted (h : Heap φ) : List Nat :=
  (List.range h.slots.size).filter fun index => (h.objectAt? index).any Object.isUnrooted

def sweep (h : Heap φ) : Heap φ × List (Reclaimed φ) := h.reclaimAll h.unrooted

/-- Define a finalizer on a target, as the kind of the target demands. -/
def define (h : Heap φ) (r : ObjectRef) (finalizer : φ) : Attachment φ :=
  match h.object? r with
  | none => .due
  | some o =>
    match o.kind with
    | .immediate => .refused (.notFinalizable o.kind.name)
    | .emittable =>
      .kept (h.setObject r { o with finalizers := o.finalizers ++ [finalizer] }) .direct
    | .plain =>
      let others := (h.sideTable.get? r).getD []
      .kept { h with sideTable := h.sideTable.insert r (others ++ [finalizer]) } .indirect

def countRun (h : Heap φ) (n : Nat) : Heap φ :=
  { h with stats := { h.stats with finalizersRun := h.stats.finalizersRun + n } }

def countCollection (h : Heap φ) : Heap φ :=
  { h with stats := { h.stats with collections := h.stats.collections + 1 } }

def pendingDirect (h : Heap φ) : List φ := h.objects.flatMap Object.finalizers

def pendingIndirect (h : Heap φ) : List (ObjectRef × List φ) :=
  h.sideTable.pairs.mergeSort fun a b => a.1.index ≤ b.1.index

def emptied (h : Heap φ) : Heap φ := { h with slots := #[], free := [], sideTable := ∅ }

def pendingCount (h : Heap φ) : Nat :=
  h.pendingDirect.length + h.sideTable.values.flatten.length

end Heap

end WeakRefs
