import WeakRefs.Heap.Views
import WeakRefs.Proofs.Move

/-!
# Where a heap keeps finalizers

A sound heap keeps finalizers on emittable objects that have a root, and in the side table under the
names of live plain objects. `pendingOf` is the view of both.
-/

namespace WeakRefs

/-- What an array of slots lists stands in one of them. -/
theorem mem_filterMap_toList_iff {α β : Type} {slots : Array α} {f : α → Option β} {b : β} :
    b ∈ slots.toList.filterMap f ↔ ∃ j : Nat, slots[j]?.bind f = some b := by
  simp only [List.mem_filterMap, Option.bind_eq_some_iff, ← Array.getElem?_toList]
  constructor
  · rintro ⟨slot, listed, filled⟩
    obtain ⟨j, at_j⟩ := List.mem_iff_getElem?.mp listed
    exact ⟨j, slot, at_j, filled⟩
  · rintro ⟨j, slot, at_j, filled⟩
    exact ⟨slot, List.mem_of_getElem? at_j, filled⟩

namespace Heap
variable {φ : Type}

/-- What holds of every heap that came about by heap operations. -/
structure Sound (h : Heap φ) : Prop where
  free_nodup : h.free.Nodup
  mem_free : ∀ index, index ∈ h.free ↔ index < h.slots.size ∧ h.objectAt? index = none
  /-- The side table speaks of live plain objects only. -/
  side : ∀ r fs, h.sideTable.get? r = some fs → ∃ o, h.object? r = some o ∧ o.kind = .plain
  /-- Only emittable objects carry finalizers of their own. -/
  direct : ∀ r o, h.object? r = some o → o.kind ≠ .emittable → o.finalizers = []
  /-- An emittable object lives no longer than its roots. -/
  rooted : ∀ r o, h.object? r = some o → o.kind = .emittable → 0 < o.roots

section Views
variable (h : Heap φ)

theorem kind?_eq_none_iff {h : Heap φ} {q : ObjectRef} : h.kind? q = none ↔ h.object? q = none :=
  Option.map_eq_none_iff

theorem object?_of_objectAt?_none {index : Nat} (empty : h.objectAt? index = none) {q : ObjectRef}
    (same : q.index = index) : h.object? q = none := by
  cases live : h.object? q with
  | none => rfl
  | some o =>
    have here := h.objectAt?_of_object? live
    rw [same, empty] at here
    cases here

theorem pendingOf_congr {h h' : Heap φ} {q : ObjectRef}
    (own : (h'.object? q).map Object.finalizers = (h.object? q).map Object.finalizers)
    (side : h'.sideTable.get? q = h.sideTable.get? q) : h'.pendingOf q = h.pendingOf q := by
  unfold pendingOf
  rw [own, side]

theorem pendingOf_of_dead {q : ObjectRef} (sound : h.Sound) (dead : h.object? q = none) :
    h.pendingOf q = [] := by
  unfold pendingOf
  rw [dead]
  cases keyed : h.sideTable.get? q with
  | none => rfl
  | some fs =>
    obtain ⟨o, live, _⟩ := sound.side q fs keyed
    rw [dead] at live
    cases live

/-- Whoever keeps a finalizer for an object knows it to be alive. -/
theorem live_of_mem_pendingOf {q : ObjectRef} {f : φ} (sound : h.Sound)
    (kept : f ∈ h.pendingOf q) : ∃ o, h.object? q = some o := by
  cases live : h.object? q with
  | none =>
    rw [h.pendingOf_of_dead sound live] at kept
    cases kept
  | some o => exact ⟨o, rfl⟩

end Views

section Write
variable (h : Heap φ) {r : ObjectRef} {o o' : Object φ} (live : h.object? r = some o)
include live

theorem objectAt?_setObject (index : Nat) :
    (h.setObject r o').objectAt? index = none ↔ h.objectAt? index = none := by
  have inside := h.lt_size_of_object? live
  have slot := h.object?_eq_some_iff.mp live
  unfold objectAt? setObject setSlot
  rw [Array.getElem?_setIfInBounds]
  by_cases same : r.index = index
  · subst same
    rw [if_pos rfl, if_pos inside, slot]
    simp
  · rw [if_neg same]

/-- Rewriting a live object keeps a heap sound if the object stays what it may be. -/
theorem Sound.setObject (sound : h.Sound) (kind : o'.kind = o.kind)
    (direct : o'.kind ≠ .emittable → o'.finalizers = [])
    (rooted : o'.kind = .emittable → 0 < o'.roots) : (h.setObject r o').Sound where
  free_nodup := sound.free_nodup
  mem_free index := by
    have size : (h.setObject r o').slots.size = h.slots.size := Array.size_setIfInBounds
    rw [size, h.objectAt?_setObject live]
    exact sound.mem_free index
  side q fs keyed := by
    obtain ⟨p, there, plain⟩ := sound.side q fs keyed
    rw [h.object?_setObject live]
    by_cases same : q = r
    · subst same
      rw [live] at there
      cases there
      rw [if_pos rfl]
      exact ⟨o', rfl, kind.trans plain⟩
    · rw [if_neg same]
      exact ⟨p, there, plain⟩
  direct q p there := by
    rw [h.object?_setObject live] at there
    split at there
    · cases there
      exact direct
    · exact sound.direct q p there
  rooted q p there := by
    rw [h.object?_setObject live] at there
    split at there
    · cases there
      exact rooted
    · exact sound.rooted q p there

end Write

section Operations
variable {h : Heap φ}

theorem Sound.empty {runtime : InstanceId} {config : HeapConfig} {pins : Nat} :
    (({ runtime, config, pins } : Heap φ)).Sound where
  free_nodup := List.nodup_nil
  mem_free index := by simp
  side r fs keyed := nomatch keyed
  direct r o live := by simp [object?] at live
  rooted r o live := by simp [object?] at live

theorem Sound.emptied : h.emptied.Sound where
  free_nodup := List.nodup_nil
  mem_free index := by simp [Heap.emptied]
  side r fs keyed := nomatch keyed
  direct r o live := by simp [object?, Heap.emptied] at live
  rooted r o live := by simp [object?, Heap.emptied] at live

theorem pendingOf_emptied (q : ObjectRef) : h.emptied.pendingOf q = [] := rfl

theorem Sound.upkeep {h' : Heap φ} (sound : h.Sound) (upkeep : h.Upkeep h') : h'.Sound := by
  cases upkeep with
  | retain r =>
    unfold Heap.retain
    split
    · rename_i o live
      refine sound.setObject h live rfl (fun other => sound.direct r o live other) fun _ => ?_
      exact Nat.succ_pos _
    · exact sound
  | countRun n => exact ⟨sound.free_nodup, sound.mem_free, sound.side, sound.direct, sound.rooted⟩
  | countCollection =>
    exact ⟨sound.free_nodup, sound.mem_free, sound.side, sound.direct, sound.rooted⟩

theorem object?_upkeep {h' : Heap φ} (upkeep : h.Upkeep h') (q : ObjectRef) :
    ∃ n, h'.object? q = (h.object? q).map fun o => { o with roots := o.roots + n } := by
  cases upkeep with
  | retain r =>
    rw [h.object?_retain]
    by_cases same : q = r
    · exact ⟨1, by simp [same]⟩
    · refine ⟨0, ?_⟩
      cases h.object? q <;> simp [same]
  | countRun n =>
    refine ⟨0, ?_⟩
    change h.object? q = _
    cases h.object? q <;> rfl
  | countCollection =>
    refine ⟨0, ?_⟩
    change h.object? q = _
    cases h.object? q <;> rfl

theorem kind?_upkeep {h' : Heap φ} (upkeep : h.Upkeep h') (q : ObjectRef) :
    h'.kind? q = h.kind? q := by
  obtain ⟨n, object⟩ := object?_upkeep upkeep q
  unfold kind?
  rw [object]
  cases h.object? q <;> rfl

theorem retain_eq (h : Heap φ) (r : ObjectRef) : ∃ slots, h.retain r = { h with slots } := by
  unfold Heap.retain
  split
  · exact ⟨_, rfl⟩
  · exact ⟨h.slots, rfl⟩

theorem upkeep_eq {h' : Heap φ} (upkeep : h.Upkeep h') :
    ∃ slots stats, h' = { h with slots, stats } := by
  cases upkeep with
  | retain r =>
    obtain ⟨slots, same⟩ := h.retain_eq r
    exact ⟨slots, h.stats, same⟩
  | countRun n => exact ⟨h.slots, _, rfl⟩
  | countCollection => exact ⟨h.slots, _, rfl⟩

theorem pendingOf_upkeep {h' : Heap φ} (upkeep : h.Upkeep h') (q : ObjectRef) :
    h'.pendingOf q = h.pendingOf q := by
  have side : h'.sideTable = h.sideTable := by
    obtain ⟨slots, stats, same⟩ := upkeep_eq upkeep
    rw [same]
  obtain ⟨n, object⟩ := object?_upkeep upkeep q
  apply pendingOf_congr
  · rw [object]
    cases h.object? q <;> rfl
  · rw [side]

end Operations

section Alloc
variable {h heap : Heap φ} {kind : ObjectKind} {r : ObjectRef}

/-- What an allocation does: it puts an object into an empty slot, under the name that the slot has.
The slot is the one freed last, or a new one if none is free. -/
structure Fills (h : Heap φ) (kind : ObjectKind) (heap : Heap φ) (r : ObjectRef) : Prop where
  empty : h.objectAt? r.index = none
  named : h.refAt r.index = r
  slot : ∀ index, heap.slots[index]? =
    if index = r.index then some ⟨r.generation, some { kind }⟩ else h.slots[index]?
  taken : (h.free = r.index :: heap.free ∧ heap.slots.size = h.slots.size) ∨
    (h.free = [] ∧ heap.free = [] ∧ r.index = h.slots.size ∧ heap.slots.size = h.slots.size + 1)

variable (sound : h.Sound) (allocated : h.alloc kind = .ok (heap, r))
include sound allocated

theorem alloc_fills : h.Fills kind heap r := by
  unfold alloc at allocated
  split at allocated
  · rename_i index rest free
    cases allocated
    have listed : index ∈ h.free := by
      rw [free]
      exact List.mem_cons_self
    obtain ⟨inside, empty⟩ := (sound.mem_free index).mp listed
    refine ⟨empty, rfl, fun j => ?_, Or.inl ⟨free, Array.size_setIfInBounds⟩⟩
    change (h.slots.setIfInBounds index _)[j]? = _
    rw [Array.getElem?_setIfInBounds]
    by_cases same : index = j
    · subst same
      rw [if_pos rfl, if_pos inside]
      exact (if_pos rfl).symm
    · rw [if_neg same]
      exact (if_neg fun e => same e.symm).symm
  · rename_i free
    split at allocated
    · cases allocated
      refine ⟨by simp [objectAt?], by simp [refAt, generationAt], fun j => Array.getElem?_push,
        Or.inr ⟨free, free, rfl, Array.size_push _⟩⟩
    · cases allocated

theorem alloc_dead : h.object? r = none :=
  h.object?_of_objectAt?_none (alloc_fills sound allocated).empty rfl

theorem objectAt?_alloc (index : Nat) :
    heap.objectAt? index = if index = r.index then some { kind } else h.objectAt? index := by
  unfold objectAt?
  rw [(alloc_fills sound allocated).slot]
  split <;> rfl

theorem generationAt_alloc (index : Nat) : heap.generationAt index = h.generationAt index := by
  have fills := alloc_fills sound allocated
  unfold generationAt
  rw [fills.slot]
  split
  · rename_i same
    rw [same]
    exact (congrArg ObjectRef.generation fills.named).symm
  · rfl

theorem object?_alloc (q : ObjectRef) :
    heap.object? q = if q = r then some { kind } else h.object? q := by
  have fills := alloc_fills sound allocated
  by_cases same : q.index = r.index
  · rw [h.object?_of_objectAt?_none fills.empty same]
    unfold object?
    rw [fills.slot, if_pos same, Option.bind_some]
    by_cases named : q = r
    · rw [if_pos named, named, if_pos rfl]
    · rw [if_neg named, if_neg]
      intro generation
      cases q
      cases r
      cases same
      cases generation
      exact named rfl
  · have other : ¬ q = r := fun e => same (congrArg ObjectRef.index e)
    unfold object?
    rw [fills.slot, if_neg same, if_neg other]

omit sound in
theorem alloc_eq : ∃ slots free, heap = { h with slots, free } := by
  unfold alloc at allocated
  split at allocated
  · cases allocated
    exact ⟨_, _, rfl⟩
  · split at allocated
    · cases allocated
      exact ⟨_, h.free, rfl⟩
    · cases allocated

omit sound in
theorem sideTable_alloc : heap.sideTable = h.sideTable := by
  obtain ⟨slots, free, same⟩ := alloc_eq allocated
  rw [same]

theorem pendingOf_alloc (q : ObjectRef) : heap.pendingOf q = h.pendingOf q := by
  by_cases same : q = r
  · subst same
    have dead := alloc_dead sound allocated
    have side : h.sideTable.get? q = none := by
      cases keyed : h.sideTable.get? q with
      | none => rfl
      | some fs =>
        obtain ⟨o, live, _⟩ := sound.side q fs keyed
        rw [dead] at live
        cases live
    unfold pendingOf
    rw [object?_alloc sound allocated, if_pos rfl, dead, sideTable_alloc allocated, side]
    rfl
  · apply pendingOf_congr
    · rw [object?_alloc sound allocated, if_neg same]
    · rw [sideTable_alloc allocated]

theorem Sound.alloc : heap.Sound where
  free_nodup := by
    have nodup := sound.free_nodup
    rcases (alloc_fills sound allocated).taken with ⟨free, _⟩ | ⟨_, free, _⟩
    · rw [free] at nodup
      exact (List.nodup_cons.mp nodup).2
    · rw [free]
      exact List.nodup_nil
  mem_free index := by
    have nodup := sound.free_nodup
    have before := sound.mem_free index
    rw [objectAt?_alloc sound allocated]
    rcases (alloc_fills sound allocated).taken with ⟨free, size⟩ | ⟨none_free, free, last, size⟩
    · rw [free] at nodup before
      have gone := (List.nodup_cons.mp nodup).1
      by_cases same : index = r.index
      · rw [same]
        simp [gone]
      · rw [if_neg same, size, ← before, List.mem_cons]
        simp [same]
    · rw [none_free] at before
      rw [free, size, last]
      constructor
      · intro there
        cases there
      · rintro ⟨inside, empty⟩
        split at empty
        · cases empty
        · exact before.mpr ⟨by omega, empty⟩
  side q fs keyed := by
    rw [sideTable_alloc allocated] at keyed
    obtain ⟨o, live, plain⟩ := sound.side q fs keyed
    have other : ¬ q = r := by
      intro same
      rw [same, alloc_dead sound allocated] at live
      cases live
    rw [object?_alloc sound allocated, if_neg other]
    exact ⟨o, live, plain⟩
  direct q o live other := by
    rw [object?_alloc sound allocated] at live
    split at live
    · cases live
      rfl
    · exact sound.direct q o live other
  rooted q o live emittable := by
    rw [object?_alloc sound allocated] at live
    split at live
    · cases live
      exact Nat.one_pos
    · exact sound.rooted q o live emittable

end Alloc

section Define
variable {h heap : Heap φ} {r : ObjectRef} {f : φ} {a : Affiliation}

/-- A finalizer is kept as the kind of its live target demands. -/
theorem define_cases (kept : h.define r f = .kept heap a) :
    ∃ o, h.object? r = some o ∧
      ((o.kind = .emittable ∧ a = .direct ∧
          heap = h.setObject r { o with finalizers := o.finalizers ++ [f] }) ∨
        (o.kind = .plain ∧ a = .indirect ∧ heap = { h with
          sideTable := h.sideTable.insert r ((h.sideTable.get? r).getD [] ++ [f]) })) := by
  unfold define at kept
  split at kept
  · cases kept
  · rename_i o live
    refine ⟨o, live, ?_⟩
    split at kept
    · cases kept
    · rename_i kind
      cases kept
      exact Or.inl ⟨kind, rfl, rfl⟩
    · rename_i kind
      cases kept
      exact Or.inr ⟨kind, rfl, rfl⟩

theorem object?_define (kept : h.define r f = .kept heap a) (q : ObjectRef) :
    (heap.object? q).map (fun o => (o.kind, o.roots)) =
      (h.object? q).map fun o => (o.kind, o.roots) := by
  obtain ⟨o, live, ⟨_, _, same⟩ | ⟨_, _, same⟩⟩ := define_cases kept
  · rw [same, h.object?_setObject live]
    by_cases target : q = r
    · rw [if_pos target, target, live]
      rfl
    · rw [if_neg target]
  · rw [same]
    rfl

theorem kind?_define (kept : h.define r f = .kept heap a) (q : ObjectRef) :
    heap.kind? q = h.kind? q := by
  have same := congrArg (Option.map Prod.fst) (object?_define kept q)
  rw [Option.map_map, Option.map_map] at same
  exact same

theorem isLive_define (kept : h.define r f = .kept heap a) (q : ObjectRef) :
    heap.isLive q = h.isLive q := by
  have same := congrArg Option.isSome (object?_define kept q)
  rw [Option.isSome_map, Option.isSome_map] at same
  exact same

theorem isLive_of_kept (kept : h.define r f = .kept heap a) : h.isLive r = true := by
  obtain ⟨o, live, _⟩ := define_cases kept
  unfold isLive
  rw [live]
  rfl

/-- A definition adds its finalizer to those of the target and moves no other. -/
theorem pendingOf_define (kept : h.define r f = .kept heap a) (q : ObjectRef) :
    (heap.pendingOf q).Perm (h.pendingOf q ++ if q = r then [f] else []) := by
  obtain ⟨o, live, ⟨_, _, same⟩ | ⟨_, _, same⟩⟩ := define_cases kept
  · subst same
    by_cases target : q = r
    · subst target
      have now : (h.setObject q { o with finalizers := o.finalizers ++ [f] }).pendingOf q =
          (o.finalizers ++ [f]) ++ (h.sideTable.get? q).getD [] := by
        unfold pendingOf
        rw [h.object?_setObject live, if_pos rfl]
        rfl
      have before : h.pendingOf q = o.finalizers ++ (h.sideTable.get? q).getD [] := by
        unfold pendingOf
        rw [live]
        rfl
      rw [now, before, if_pos rfl, List.append_assoc, List.append_assoc]
      exact List.perm_append_comm.append_left _
    · rw [if_neg target, List.append_nil]
      apply List.Perm.of_eq
      apply pendingOf_congr
      · rw [h.object?_setObject live, if_neg target]
      · rfl
  · subst same
    by_cases target : q = r
    · subst target
      rw [if_pos rfl]
      apply List.Perm.of_eq
      unfold pendingOf
      rw [Table.get?_insert, if_pos rfl]
      exact (List.append_assoc _ _ _).symm
    · rw [if_neg target, List.append_nil]
      apply List.Perm.of_eq
      apply pendingOf_congr
      · rfl
      · exact (Table.get?_insert _ _ _ _).trans (if_neg target)

theorem Sound.define (sound : h.Sound) (kept : h.define r f = .kept heap a) : heap.Sound := by
  obtain ⟨o, live, ⟨kind, _, same⟩ | ⟨kind, _, same⟩⟩ := define_cases kept
  · subst same
    exact sound.setObject h live rfl (fun other => absurd kind other) (sound.rooted r o live)
  · subst same
    refine ⟨sound.free_nodup, sound.mem_free, ?_, sound.direct, sound.rooted⟩
    intro q fs keyed
    rw [Table.get?_insert] at keyed
    split at keyed
    · rename_i target
      subst target
      exact ⟨o, live, kind⟩
    · exact sound.side q fs keyed

end Define

section Reclaim
variable {h : Heap φ} {index : Nat}

theorem objectAt?_reclaim (j : Nat) :
    (h.reclaim index).1.objectAt? j = if j = index then none else h.objectAt? j := by
  unfold objectAt? Heap.reclaim
  dsimp only
  rw [Array.getElem?_setIfInBounds]
  by_cases same : index = j
  · rw [if_pos same, if_pos same.symm]
    split <;> rfl
  · rw [if_neg same, if_neg fun e => same e.symm]

theorem pendingOf_reclaim (q : ObjectRef) :
    (h.reclaim index).1.pendingOf q = if q = h.refAt index then [] else h.pendingOf q := by
  have object := h.object?_reclaim index q
  have side : (h.reclaim index).1.sideTable.get? q =
      if q = h.refAt index then none else h.sideTable.get? q := Table.get?_erase _ _ _
  unfold pendingOf
  rw [object, side]
  by_cases named : q = h.refAt index
  · have same : q.index = index := congrArg ObjectRef.index named
    rw [if_pos named, if_pos same, if_pos named]
    rfl
  · rw [if_neg named, if_neg named]
    by_cases same : q.index = index
    · have gone : h.object? q = none := by
        cases live : h.object? q with
        | none => rfl
        | some o =>
          have name := h.refAt_of_object? live
          rw [same] at name
          exact absurd name.symm named
      rw [if_pos same, gone]
    · rw [if_neg same]

theorem Sound.reclaim (sound : h.Sound) (live : h.objectAt? index ≠ none) :
    (h.reclaim index).1.Sound := by
  have inside : index < h.slots.size := by
    cases here : h.objectAt? index with
    | none => exact absurd here live
    | some o => exact h.lt_size_of_object? (h.objectAt?_eq_some_iff.mp here)
  have size : (h.reclaim index).1.slots.size = h.slots.size := Array.size_setIfInBounds
  have still {q : ObjectRef} {o : Object φ} (there : (h.reclaim index).1.object? q = some o) :
      h.object? q = some o := by
    rw [h.object?_reclaim] at there
    split at there
    · cases there
    · exact there
  constructor
  · refine List.nodup_cons.mpr ⟨?_, sound.free_nodup⟩
    intro listed
    exact live ((sound.mem_free index).mp listed).2
  · intro j
    have step : j ∈ (h.reclaim index).1.free ↔ j = index ∨ j ∈ h.free := List.mem_cons
    rw [step, sound.mem_free, size, objectAt?_reclaim]
    by_cases same : j = index
    · simp [same, inside]
    · simp [same]
  · intro q fs keyed
    have before : (h.sideTable.erase (h.refAt index)).get? q = some fs := keyed
    rw [Table.get?_erase] at before
    split at before
    · cases before
    · rename_i other
      obtain ⟨o, there, plain⟩ := sound.side q fs before
      have apart : ¬ q.index = index := by
        intro same
        have name := h.refAt_of_object? there
        rw [same] at name
        exact other name.symm
      rw [h.object?_reclaim, if_neg apart]
      exact ⟨o, there, plain⟩
  · exact fun q o there other => sound.direct q o (still there) other
  · exact fun q o there emittable => sound.rooted q o (still there) emittable

/-- What a reclamation leaves and what it hands back. -/
structure Reclaims (h : Heap φ) (outcome : Heap φ × List (Reclaimed φ)) : Prop where
  sound : outcome.1.Sound
  /-- Survivors were there before, with the finalizers that they have. -/
  survivor : ∀ q o, outcome.1.object? q = some o →
    (∃ o', h.object? q = some o' ∧ o'.kind = o.kind) ∧ outcome.1.pendingOf q = h.pendingOf q
  mem_due : ∀ f, f ∈ outcome.2.flatMap Reclaimed.due ↔
    ∃ q, outcome.1.object? q = none ∧ f ∈ h.pendingOf q

theorem Reclaims.none (sound : h.Sound) : h.Reclaims (h, []) where
  sound := sound
  survivor q o live := ⟨⟨o, live, rfl⟩, rfl⟩
  mem_due f := by
    constructor
    · intro due
      cases due
    · rintro ⟨q, dead, kept⟩
      rw [h.pendingOf_of_dead sound dead] at kept
      cases kept

theorem reclaims_reclaimAll {dead : List Nat} (sound : h.Sound) (nodup : dead.Nodup)
    (live : ∀ j, j ∈ dead → h.objectAt? j ≠ none) : h.Reclaims (h.reclaimAll dead) := by
  induction dead generalizing h with
  | nil => exact .none sound
  | cons index rest ih =>
    obtain ⟨fresh, nodup⟩ := List.nodup_cons.mp nodup
    have first := sound.reclaim (live index List.mem_cons_self)
    have still : ∀ j, j ∈ rest → (h.reclaim index).1.objectAt? j ≠ none := by
      intro j listed
      have other : ¬ j = index := fun e => fresh (e ▸ listed)
      rw [objectAt?_reclaim, if_neg other]
      exact live j (List.mem_cons_of_mem _ listed)
    have others := ih first nodup still
    have object (q : ObjectRef) := h.object?_reclaimAll (index :: rest) q
    constructor
    · exact others.sound
    · intro q o there
      obtain ⟨⟨o', before, kind⟩, pending⟩ := others.survivor q o there
      rw [h.object?_reclaim] at before
      split at before
      · cases before
      · rename_i apart
        refine ⟨⟨o', before, kind⟩, pending.trans ?_⟩
        rw [pendingOf_reclaim, if_neg]
        intro named
        exact apart (congrArg ObjectRef.index named)
    · intro f
      change f ∈ h.pendingOf (h.refAt index) ++ ((h.reclaim index).1.reclaimAll rest).2.flatMap
        Reclaimed.due ↔ _
      rw [List.mem_append, others.mem_due]
      constructor
      · intro due
        rcases due with due | ⟨q, gone, kept⟩
        · refine ⟨h.refAt index, ?_, due⟩
          rw [object]
          exact if_pos (List.mem_cons_self (a := index))
        · rw [pendingOf_reclaim] at kept
          split at kept
          · cases kept
          · exact ⟨q, gone, kept⟩
      · rintro ⟨q, gone, kept⟩
        by_cases named : q = h.refAt index
        · exact Or.inl (named ▸ kept)
        · refine Or.inr ⟨q, gone, ?_⟩
          rw [pendingOf_reclaim, if_neg named]
          exact kept

theorem reclaims_sweep (sound : h.Sound) : h.Reclaims h.sweep := by
  apply reclaims_reclaimAll sound h.nodup_unrooted
  intro j due
  obtain ⟨o, live, _⟩ := h.mem_unrooted.mp due
  rw [live]
  exact Option.some_ne_none o

theorem pendingOf_setObject {r : ObjectRef} {o : Object φ} (live : h.object? r = some o)
    (o' : Object φ) (same : o'.finalizers = o.finalizers) (q : ObjectRef) :
    (h.setObject r o').pendingOf q = h.pendingOf q := by
  refine pendingOf_congr ?_ rfl
  rw [h.object?_setObject live]
  split
  · rename_i named
    rw [named, live]
    exact congrArg some same
  · rfl

/-- What an object was like before it is reclaimed matters only for its finalizers. -/
theorem reclaim_setObject {r : ObjectRef} {o : Object φ} (live : h.object? r = some o)
    (o' : Object φ) (same : o'.finalizers = o.finalizers) :
    (h.setObject r o').reclaim r.index = h.reclaim r.index := by
  have now : (h.setObject r o').object? r = some o' := by
    rw [h.object?_setObject live, if_pos rfl]
  have pending := pendingOf_setObject live o' same r
  unfold reclaim
  dsimp only
  rw [(h.setObject r o').refAt_of_object? now, h.refAt_of_object? live, pending]
  unfold setObject setSlot
  rw [Array.setIfInBounds_setIfInBounds]

theorem reclaims_release (sound : h.Sound) (r : ObjectRef) : h.Reclaims (h.release r) := by
  unfold release
  split
  · exact .none sound
  rename_i o live
  dsimp only
  split
  · have alone : (h.setObject r { o with roots := o.roots - 1 }).reclaimAll [r.index] =
        h.reclaimAll [r.index] := by
      unfold reclaimAll
      rw [reclaim_setObject live { o with roots := o.roots - 1 } rfl]
    rw [alone]
    apply reclaims_reclaimAll sound (by simp)
    intro j listed
    rw [List.mem_singleton.mp listed, h.objectAt?_of_object? live]
    exact Option.some_ne_none o
  · rename_i rooted
    have kept : (h.setObject r { o with roots := o.roots - 1 }).Sound := by
      refine sound.setObject h live rfl (fun other => sound.direct r o live other) ?_
      intro emittable
      apply Nat.pos_of_ne_zero
      intro none_left
      exact rooted ⟨decide_eq_true none_left, emittable⟩
    have pending := pendingOf_setObject live { o with roots := o.roots - 1 } rfl
    constructor
    · exact kept
    · intro q p there
      refine ⟨?_, pending q⟩
      rw [h.object?_setObject live] at there
      split at there
      · rename_i named
        cases there
        exact ⟨o, named ▸ live, rfl⟩
      · exact ⟨p, there, rfl⟩
    · intro f
      constructor
      · intro due
        cases due
      · rintro ⟨q, dead, pended⟩
        rw [← pending, pendingOf_of_dead _ kept dead] at pended
        cases pended

theorem reclaimAll_eq (h : Heap φ) (dead : List Nat) : ∃ slots free sideTable n,
    (h.reclaimAll dead).1 =
      { h with slots, free, sideTable, stats := { h.stats with objectsReclaimed := n } } := by
  induction dead generalizing h with
  | nil => exact ⟨h.slots, h.free, h.sideTable, h.stats.objectsReclaimed, rfl⟩
  | cons index rest ih => exact ih (h.reclaim index).1

/-- A reclamation counts the objects that go; of runs and collections its caller keeps count. -/
theorem reclamation_eq {outcome : Heap φ × List (Reclaimed φ)}
    (reclamation : h.Reclamation outcome) : ∃ slots free sideTable n, outcome.1 =
      { h with slots, free, sideTable, stats := { h.stats with objectsReclaimed := n } } := by
  cases reclamation with
  | sweep => exact h.reclaimAll_eq _
  | release r =>
    unfold release
    split
    · exact ⟨h.slots, h.free, h.sideTable, h.stats.objectsReclaimed, rfl⟩
    · rename_i o live
      dsimp only
      split
      · exact (h.setObject r { o with roots := o.roots - 1 }).reclaimAll_eq _
      · exact ⟨_, h.free, h.sideTable, h.stats.objectsReclaimed, rfl⟩

theorem collections_reclaimAll (h : Heap φ) (dead : List Nat) :
    (h.reclaimAll dead).1.stats.collections = h.stats.collections := by
  obtain ⟨slots, free, sideTable, n, same⟩ := h.reclaimAll_eq dead
  rw [same]

/-- A reclamation leaves the heap's own names alone. -/
theorem same_reclamation {outcome : Heap φ × List (Reclaimed φ)}
    (reclamation : h.Reclamation outcome) :
    outcome.1.pins = h.pins ∧ outcome.1.runtime = h.runtime := by
  obtain ⟨slots, free, sideTable, n, same⟩ := reclamation_eq reclamation
  rw [same]
  exact ⟨rfl, rfl⟩

theorem same_alloc {kind : ObjectKind} {heap : Heap φ} {r : ObjectRef}
    (allocated : h.alloc kind = .ok (heap, r)) :
    heap.pins = h.pins ∧ heap.runtime = h.runtime := by
  obtain ⟨slots, free, same⟩ := alloc_eq allocated
  rw [same]
  exact ⟨rfl, rfl⟩

theorem same_upkeep {heap : Heap φ} (upkeep : h.Upkeep heap) :
    heap.pins = h.pins ∧ heap.runtime = h.runtime := by
  obtain ⟨slots, stats, same⟩ := upkeep_eq upkeep
  rw [same]
  exact ⟨rfl, rfl⟩

theorem reclaims {outcome : Heap φ × List (Reclaimed φ)} (sound : h.Sound)
    (reclamation : h.Reclamation outcome) : h.Reclaims outcome := by
  cases reclamation with
  | release r => exact reclaims_release sound r
  | sweep => exact reclaims_sweep sound

theorem mem_pendingOf_iff {q : ObjectRef} {f : φ} : f ∈ h.pendingOf q ↔
    (∃ o, h.object? q = some o ∧ f ∈ o.finalizers) ∨
      ∃ fs, h.sideTable.get? q = some fs ∧ f ∈ fs := by
  unfold pendingOf
  rw [List.mem_append]
  cases h.object? q <;> cases h.sideTable.get? q <;> simp

theorem mem_objects {o : Object φ} : o ∈ h.objects ↔ ∃ j, h.objectAt? j = some o :=
  mem_filterMap_toList_iff

theorem mem_pendingDirect_iff {f : φ} :
    f ∈ h.pendingDirect ↔ ∃ q o, h.object? q = some o ∧ f ∈ o.finalizers := by
  unfold pendingDirect
  rw [List.mem_flatMap]
  constructor
  · rintro ⟨o, listed, kept⟩
    obtain ⟨j, there⟩ := mem_objects.mp listed
    exact ⟨h.refAt j, o, h.objectAt?_eq_some_iff.mp there, kept⟩
  · rintro ⟨q, o, live, kept⟩
    exact ⟨o, mem_objects.mpr ⟨q.index, h.objectAt?_of_object? live⟩, kept⟩

/-- Every finalizer that a heap keeps is drained when the heap is shut down. -/
theorem mem_drained {groups : List (ObjectRef × List φ)} (all : groups.Perm h.sideTable.pairs)
    (f : φ) : f ∈ h.pendingDirect ++ groups.flatMap Prod.snd ↔ ∃ q, f ∈ h.pendingOf q := by
  rw [List.mem_append, mem_pendingDirect_iff, List.mem_flatMap]
  simp only [mem_pendingOf_iff, Table.get?_eq_some_iff]
  constructor
  · intro drained
    rcases drained with ⟨q, o, live, kept⟩ | ⟨⟨q, fs⟩, listed, kept⟩
    · exact ⟨q, Or.inl ⟨o, live, kept⟩⟩
    · exact ⟨q, Or.inr ⟨fs, all.mem_iff.mp listed, kept⟩⟩
  · rintro ⟨q, kept⟩
    rcases kept with ⟨o, live, kept⟩ | ⟨fs, listed, kept⟩
    · exact Or.inl ⟨q, o, live, kept⟩
    · exact Or.inr ⟨⟨q, fs⟩, all.mem_iff.mpr listed, kept⟩

end Reclaim

end Heap

end WeakRefs
