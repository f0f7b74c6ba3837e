import WeakRefs.Proofs.Pending

/-!
# A heap without its finalizers

`Heap.bare` forgets the finalizers that a heap keeps and whose heap it is. Each heap operation acts
on the bare heap by itself, and a definition does not act on it at all.
-/

namespace WeakRefs

variable {φ : Type}

def Object.bare (o : Object φ) : Object Empty := { kind := o.kind, roots := o.roots }

def Slot.bare (s : Slot φ) : Slot Empty := ⟨s.generation, s.object.map Object.bare⟩

namespace Heap

/-- The heap as far as its host works on it. -/
def bare (h : Heap φ) : Heap Empty where
  runtime := ⟨0⟩
  config := {}
  pins := 0
  slots := h.slots.map Slot.bare
  free := h.free
  stats := { h.stats with finalizersRun := 0 }

variable (h : Heap φ)

section Views

theorem object?_bare (r : ObjectRef) : h.bare.object? r = (h.object? r).map Object.bare := by
  unfold object? bare
  dsimp only
  rw [Array.getElem?_map]
  cases h.slots[r.index]? with
  | none => rfl
  | some s =>
    simp only [Option.map_some, Option.bind_some, Slot.bare]
    split <;> rfl

theorem objectAt?_bare (index : Nat) :
    h.bare.objectAt? index = (h.objectAt? index).map Object.bare := by
  unfold objectAt? bare
  dsimp only
  rw [Array.getElem?_map]
  cases h.slots[index]? <;> rfl

theorem refAt_bare (index : Nat) : h.bare.refAt index = h.refAt index := by
  unfold refAt generationAt bare
  dsimp only
  rw [Array.getElem?_map]
  cases h.slots[index]? <;> rfl

theorem isLive_bare (r : ObjectRef) : h.bare.isLive r = h.isLive r := by
  unfold isLive
  rw [object?_bare, Option.isSome_map]

theorem kind?_bare (r : ObjectRef) : h.bare.kind? r = h.kind? r := by
  unfold kind?
  rw [object?_bare, Option.map_map]
  rfl

theorem isReachable_bare (r : ObjectRef) : h.bare.isReachable r = h.isReachable r := by
  unfold isReachable
  rw [object?_bare, Option.any_map]
  rfl

theorem liveCount_bare : h.bare.liveCount = h.liveCount := by
  have same : h.bare.objects = h.objects.map Object.bare := by
    unfold objects bare
    dsimp only
    rw [Array.toList_map, List.filterMap_map, List.map_filterMap]
    rfl
  unfold liveCount
  rw [same, List.length_map]

theorem unrooted_bare : h.bare.unrooted = h.unrooted := by
  have size : h.bare.slots.size = h.slots.size := Array.size_map
  unfold unrooted
  rw [size]
  refine List.filter_congr fun index _ => ?_
  rw [objectAt?_bare, Option.any_map]
  rfl

end Views

section Operations

theorem bare_new (runtime : InstanceId) (config : HeapConfig) (pins : Nat) :
    ({ runtime, config, pins } : Heap φ).bare = { runtime := ⟨0⟩, config := {}, pins := 0 } := by
  unfold bare
  rw [Array.map_empty]

theorem bare_emptied : h.emptied.bare = h.bare.emptied := by
  unfold emptied bare
  rw [Array.map_empty]

theorem bare_countRun (n : Nat) : (h.countRun n).bare = h.bare := rfl

theorem bare_countCollection : h.countCollection.bare = h.bare.countCollection := rfl

theorem bare_setSlot (index : Nat) (s : Slot φ) :
    (h.setSlot index s).bare = h.bare.setSlot index s.bare := by
  unfold setSlot bare
  rw [Array.map_setIfInBounds]

theorem bare_setObject (r : ObjectRef) (o : Object φ) :
    (h.setObject r o).bare = h.bare.setObject r o.bare := h.bare_setSlot r.index _

/-- To write a live object with its kind and its roots is no change. -/
theorem setObject_self {r : ObjectRef} {o : Object φ} (live : h.object? r = some o) :
    h.setObject r o = h := by
  have slot := h.object?_eq_some_iff.mp live
  unfold setObject setSlot
  have same : h.slots.setIfInBounds r.index ⟨r.generation, some o⟩ = h.slots := by
    apply Array.ext_getElem?
    intro index
    rw [Array.getElem?_setIfInBounds]
    split
    · rename_i same
      rw [if_pos (h.lt_size_of_object? live), ← same, slot]
    · rfl
  rw [same]

theorem bare_alloc (kind : ObjectKind) :
    h.bare.alloc kind = (h.alloc kind).map fun made => (made.1.bare, made.2) := by
  have size : h.bare.slots.size = h.slots.size := Array.size_map
  have refAt := h.refAt_bare
  have free : h.bare.free = h.free := rfl
  unfold alloc
  rw [free]
  split
  · rename_i index rest _
    have generation : h.bare.generationAt index = h.generationAt index :=
      congrArg ObjectRef.generation (refAt index)
    rw [refAt, generation]
    have filled := bare_setSlot { h with free := rest } index
      ⟨h.generationAt index, some { kind }⟩
    exact congrArg Except.ok (Prod.ext filled.symm rfl)
  · rw [size]
    split
    · refine congrArg Except.ok (Prod.ext ?_ rfl)
      unfold bare
      dsimp only
      rw [Array.map_push]
      rfl
    · rfl

/-- The heap after an allocation, also after one that fails. -/
def afterAlloc (kind : ObjectKind) : Heap φ :=
  match h.alloc kind with
  | .ok made => made.1
  | .error _ => h

theorem bare_retain (r : ObjectRef) : (h.retain r).bare = h.bare.retain r := by
  unfold retain
  rw [object?_bare]
  cases h.object? r with
  | none => rfl
  | some o => exact h.bare_setObject r _

theorem bare_reclaim (index : Nat) : (h.reclaim index).1.bare = (h.bare.reclaim index).1 := by
  unfold reclaim
  dsimp only
  rw [refAt_bare]
  unfold bare
  dsimp only
  rw [Array.map_setIfInBounds]
  rfl

theorem bare_reclaimAll (dead : List Nat) :
    (h.reclaimAll dead).1.bare = (h.bare.reclaimAll dead).1 := by
  induction dead generalizing h with
  | nil => rfl
  | cons index rest ih =>
    change ((h.reclaim index).1.reclaimAll rest).1.bare =
      ((h.bare.reclaim index).1.reclaimAll rest).1
    rw [ih, bare_reclaim]

theorem bare_release (r : ObjectRef) : (h.release r).1.bare = (h.bare.release r).1 := by
  unfold release
  rw [object?_bare]
  cases h.object? r with
  | none => rfl
  | some o =>
    have written := h.bare_setObject r { o with roots := o.roots - 1 }
    have due : (o.bare.roots - 1 = 0 ∧ o.bare.kind = .emittable) ↔
        o.roots - 1 = 0 ∧ o.kind = .emittable := Iff.rfl
    simp only [Option.map_some, Object.isUnrooted, decide_eq_true_eq, due]
    split
    · rw [bare_reclaimAll, written]
      rfl
    · exact written

theorem bare_sweep : h.sweep.1.bare = h.bare.sweep.1 := by
  unfold sweep
  rw [bare_reclaimAll, unrooted_bare]

theorem length_sweep_bare : h.bare.sweep.2.length = h.sweep.2.length := by
  rw [length_sweep, length_sweep, unrooted_bare]

/-- A definition leaves the bare heap as it is. -/
theorem bare_define {heap : Heap φ} {r : ObjectRef} {f : φ} {a : Affiliation}
    (kept : h.define r f = .kept heap a) : heap.bare = h.bare := by
  obtain ⟨o, live, ⟨_, _, same⟩ | ⟨_, _, same⟩⟩ := define_cases kept
  · rw [same, bare_setObject]
    apply setObject_self
    rw [object?_bare, live]
    rfl
  · rw [same]
    rfl

end Operations

end Heap

end WeakRefs
