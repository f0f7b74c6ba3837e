import WeakRefs.Heap.Basic

/-!
# What heap operations do to the objects

The view of a heap is `object?`: which object a name stands for. Each operation has one equation.
-/

namespace WeakRefs

namespace Heap
variable {φ : Type} (h : Heap φ)

theorem object?_eq_some_iff {r : ObjectRef} {o : Object φ} :
    h.object? r = some o ↔ h.slots[r.index]? = some ⟨r.generation, some o⟩ := by
  unfold object?
  cases h.slots[r.index]? with
  | none => simp
  | some s =>
    obtain ⟨generation, object⟩ := s
    simp only [Option.bind_some, Option.some.injEq, Slot.mk.injEq]
    split
    · rename_i same
      simp [same]
    · rename_i other
      simp [other]

theorem objectAt?_eq_some_iff {index : Nat} {o : Object φ} :
    h.objectAt? index = some o ↔ h.object? (h.refAt index) = some o := by
  unfold objectAt? object? refAt generationAt
  cases h.slots[index]? with
  | none => simp
  | some s => simp

theorem objectAt?_of_object? {r : ObjectRef} {o : Object φ} (live : h.object? r = some o) :
    h.objectAt? r.index = some o := by
  rw [object?_eq_some_iff] at live
  simp [objectAt?, live]

theorem refAt_of_object? {r : ObjectRef} {o : Object φ} (live : h.object? r = some o) :
    h.refAt r.index = r := by
  rw [object?_eq_some_iff] at live
  simp [refAt, generationAt, live]

theorem lt_size_of_object? {r : ObjectRef} {o : Object φ} (live : h.object? r = some o) :
    r.index < h.slots.size := by
  rw [object?_eq_some_iff] at live
  exact (Array.getElem?_eq_some_iff.mp live).1

theorem object?_setObject {r : ObjectRef} {o : Object φ} (live : h.object? r = some o)
    (o' : Object φ) (q : ObjectRef) :
    (h.setObject r o').object? q = if q = r then some o' else h.object? q := by
  have inside := h.lt_size_of_object? live
  have slot := h.object?_eq_some_iff.mp live
  unfold setObject setSlot object?
  rw [Array.getElem?_setIfInBounds]
  by_cases same : r.index = q.index
  · rw [if_pos same, if_pos inside, ← same, slot]
    cases q with
    | mk index generation =>
      cases r with
      | mk index' generation' =>
        simp only at same
        subst same
        by_cases hg : generation' = generation
        · simp [hg]
        · have hg' : ¬ generation = generation' := fun e => hg e.symm
          simp [hg, hg']
  · have other : ¬ q = r := fun e => same (congrArg ObjectRef.index e).symm
    rw [if_neg same, if_neg other]

theorem object?_retain (r q : ObjectRef) :
    (h.retain r).object? q =
      (h.object? q).map fun o => if q = r then { o with roots := o.roots + 1 } else o := by
  unfold retain
  split
  · rename_i o live
    rw [h.object?_setObject live]
    split
    · rename_i same
      rw [same, live]
      rfl
    · simp
  · rename_i dead
    by_cases same : q = r
    · rw [same, dead]
      rfl
    · simp [same]

theorem object?_reclaim (index : Nat) (q : ObjectRef) :
    (h.reclaim index).1.object? q = if q.index = index then none else h.object? q := by
  unfold reclaim object?
  dsimp only
  rw [Array.getElem?_setIfInBounds]
  by_cases same : index = q.index
  · subst same
    by_cases inside : q.index < h.slots.size
    · simp [inside]
    · simp [inside]
  · have other : ¬ q.index = index := fun e => same e.symm
    simp [same, other]

theorem object?_reclaimAll (indices : List Nat) (q : ObjectRef) :
    (h.reclaimAll indices).1.object? q = if q.index ∈ indices then none else h.object? q := by
  induction indices generalizing h with
  | nil => simp [reclaimAll]
  | cons index rest ih =>
    simp only [reclaimAll, ih, object?_reclaim, List.mem_cons]
    by_cases first : q.index = index
    · simp [first]
    · simp [first]

theorem mem_unrooted {index : Nat} :
    index ∈ h.unrooted ↔ ∃ o, h.objectAt? index = some o ∧ o.roots = 0 := by
  unfold unrooted
  simp only [List.mem_filter, List.mem_range, Option.any_eq_true, Object.isUnrooted,
    decide_eq_true_eq]
  constructor
  · exact And.right
  · intro found
    refine ⟨?_, found⟩
    obtain ⟨o, live, _⟩ := found
    exact h.lt_size_of_object? (h.objectAt?_eq_some_iff.mp live)

theorem nodup_unrooted : h.unrooted.Nodup := List.nodup_range.sublist List.filter_sublist

/-- A sweep keeps the objects with roots as they are, and no other. -/
theorem object?_sweep (q : ObjectRef) :
    h.sweep.1.object? q = (h.object? q).filter fun o => 0 < o.roots := by
  rw [sweep, object?_reclaimAll]
  cases live : h.object? q with
  | none => simp
  | some o =>
    have here := h.objectAt?_of_object? live
    by_cases rooted : o.roots = 0
    · have due : q.index ∈ h.unrooted := h.mem_unrooted.mpr ⟨o, here, rooted⟩
      simp [due, rooted, Option.filter]
    · have kept : ¬ q.index ∈ h.unrooted := by
        intro due
        obtain ⟨o', here', none_left⟩ := h.mem_unrooted.mp due
        rw [here] at here'
        cases here'
        exact rooted none_left
      simp [kept, Option.filter, Nat.pos_of_ne_zero rooted]

theorem isLive_sweep (q : ObjectRef) : h.sweep.1.isLive q = h.isReachable q := by
  unfold isLive isReachable
  rw [object?_sweep]
  cases h.object? q with
  | none => rfl
  | some o => by_cases rooted : 0 < o.roots <;> simp [rooted, Option.filter]

theorem isReachable_sweep (q : ObjectRef) : h.sweep.1.isReachable q = h.isReachable q := by
  unfold isReachable
  rw [object?_sweep]
  cases h.object? q with
  | none => rfl
  | some o => by_cases rooted : 0 < o.roots <;> simp [rooted, Option.filter]

theorem length_sweep : h.sweep.2.length = h.unrooted.length := by
  unfold sweep
  generalize h.unrooted = indices
  induction indices generalizing h with
  | nil => rfl
  | cons index rest ih => simp [reclaimAll, ih]

end Heap

end WeakRefs
