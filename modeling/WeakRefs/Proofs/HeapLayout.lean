import Mathlib.Order.Bounds.Defs
import WeakRefs.Proofs.ObjectNames

/-!
# How a heap is laid out

A slot is in use or it is listed as free, never both, and a new slot is made only if all are in use.
Finalizers stand where the kind of their object wants them, and nowhere else.
-/

namespace WeakRefs

namespace Heap
variable {φ : Type} {h heap : Heap φ}

def full (h : Heap φ) : List Nat :=
  (List.range h.slots.size).filter fun index => (h.objectAt? index).isSome

theorem length_full (h : Heap φ) : h.full.length = h.liveCount := by
  rw [full, liveCount, objects_eq, List.length_filterMap_eq_countP, List.countP_eq_length_filter]

theorem size_slots (sound : h.Sound) : h.slots.size = h.liveCount + h.free.length := by
  have empties : h.free.Perm
      ((List.range h.slots.size).filter fun index => !(h.objectAt? index).isSome) := by
    apply (List.perm_ext_iff_of_nodup sound.free_nodup (List.nodup_range.filter _)).mpr
    intro index
    rw [sound.mem_free, List.mem_filter, List.mem_range]
    simp
  have parts := filter_perm_append (fun index => (h.objectAt? index).isSome)
    (List.range h.slots.size)
  rw [← length_full, full, empties.length_eq, ← List.length_append, ← parts.length_eq,
    List.length_range]

def Listed (h : Heap φ) : Prop := ∀ r fs, h.sideTable.get? r = some fs → fs ≠ []

/-- What is kept between two allocations: no slot is made, and each object that goes frees one. -/
structure NoNewSlots (h heap : Heap φ) : Prop where
  size : heap.slots.size = h.slots.size
  freed : ∃ n, heap.free.length = h.free.length + n ∧
    heap.stats.objectsReclaimed = h.stats.objectsReclaimed + n
  listed : h.Listed → heap.Listed

namespace NoNewSlots

theorem refl (h : Heap φ) : NoNewSlots h h := ⟨rfl, ⟨0, rfl, rfl⟩, id⟩

theorem trans {h' : Heap φ} (first : NoNewSlots h heap) (next : NoNewSlots heap h') :
    NoNewSlots h h' where
  size := next.size.trans first.size
  freed := by
    obtain ⟨n, free, reclaimed⟩ := first.freed
    obtain ⟨n', free', reclaimed'⟩ := next.freed
    exact ⟨n + n', by omega, by omega⟩
  listed listed := next.listed (first.listed listed)

theorem setObject (h : Heap φ) (r : ObjectRef) (o : Object φ) : NoNewSlots h (h.setObject r o) :=
  ⟨Array.size_setIfInBounds, ⟨0, rfl, rfl⟩, id⟩

theorem upkeep (upkeep : h.Upkeep heap) : NoNewSlots h heap := by
  cases upkeep with
  | retain r =>
    unfold Heap.retain
    split
    · exact setObject h r _
    · exact refl h
  | countRun n => exact ⟨rfl, ⟨0, rfl, rfl⟩, id⟩
  | countCollection => exact ⟨rfl, ⟨0, rfl, rfl⟩, id⟩

theorem define {r : ObjectRef} {f : φ} {a : Affiliation} (kept : h.define r f = .kept heap a) :
    NoNewSlots h heap := by
  obtain ⟨o, _, ⟨_, _, same⟩ | ⟨_, _, same⟩⟩ := define_cases kept
  · rw [same]
    exact setObject h r _
  · rw [same]
    refine ⟨rfl, ⟨0, rfl, rfl⟩, fun listed q fs there => ?_⟩
    rw [Table.get?_insert] at there
    split at there
    · cases there
      simp
    · exact listed q fs there

theorem reclaim (h : Heap φ) (index : Nat) : NoNewSlots h (h.reclaim index).1 where
  size := Array.size_setIfInBounds
  freed := ⟨1, rfl, rfl⟩
  listed listed q fs there := by
    unfold Heap.reclaim at there
    rw [Table.get?_erase] at there
    split at there
    · cases there
    · exact listed q fs there

theorem reclaimAll (h : Heap φ) (dead : List Nat) : NoNewSlots h (h.reclaimAll dead).1 := by
  induction dead generalizing h with
  | nil => exact refl h
  | cons index rest ih => exact (reclaim h index).trans (ih _)

theorem reclamation {outcome : Heap φ × List (Reclaimed φ)}
    (reclamation : h.Reclamation outcome) : NoNewSlots h outcome.1 := by
  cases reclamation with
  | sweep => exact reclaimAll h _
  | release r =>
    unfold Heap.release
    split
    · exact refl h
    · dsimp only
      split
      · exact (setObject h r _).trans (reclaimAll _ _)
      · exact setObject h r _

theorem course (course : h.Course heap) : NoNewSlots h heap := by
  induction course with
  | refl h => exact refl h
  | upkeep done => exact upkeep done
  | define kept => exact define kept
  | reclaim done => exact reclamation done
  | trans _ _ first next => exact first.trans next

end NoNewSlots

theorem alloc_grows {kind : ObjectKind} {r : ObjectRef} (sound : h.Sound)
    (allocated : h.alloc kind = .ok (heap, r)) :
    r.index < heap.slots.size ∧
      (heap.slots.size = h.slots.size ∧ h.free.length = heap.free.length + 1 ∨
        heap.slots.size = h.slots.size + 1 ∧ h.free = [] ∧ heap.free = []) := by
  rcases (alloc_fills sound allocated).taken with ⟨free, size⟩ | ⟨none_free, free, last, size⟩
  · have listed : r.index ∈ h.free := by
      rw [free]
      exact List.mem_cons_self
    rw [size, free]
    exact ⟨((sound.mem_free r.index).mp listed).1, Or.inl ⟨rfl, rfl⟩⟩
  · rw [size, last]
    exact ⟨Nat.lt_succ_self _, Or.inr ⟨rfl, none_free, free⟩⟩

end Heap

namespace Session
variable {i : Nat} {ops : List Op} {h : Heap Finalizer}

/-- How many objects live in heap `i`. -/
def liveIn (s : Session) (i : Nat) : Nat := ((s.heap? i).map Heap.liveCount).getD 0

/-- The numbers of live objects that heap `i` has had after each part of a run. -/
def Populations (i : Nat) (ops : List Op) : Set Nat :=
  {n | ∃ before, before <+: ops ∧ n = (Session.after {} before).liveIn i}

theorem mem_populations_concat {op : Op} {n : Nat} : n ∈ Populations i (ops ++ [op]) ↔
    n = (Session.after {} (ops ++ [op])).liveIn i ∨ n ∈ Populations i ops := by
  constructor
  · rintro ⟨before, part, count⟩
    rcases List.prefix_concat_iff.mp part with same | part
    · exact Or.inl (same ▸ count)
    · exact Or.inr ⟨before, part, count⟩
  · rintro (count | ⟨before, part, count⟩)
    · exact ⟨_, List.prefix_rfl, count⟩
    · exact ⟨before, part.trans (List.prefix_append ops [op]), count⟩

structure SlotCounts (i : Nat) (ops : List Op) (h : Heap Finalizer) : Prop where
  listed : h.Listed
  below : ∀ r ∈ given i {} ops, r.index < h.slots.size
  count : (given i {} ops).length + h.free.length = h.slots.size + h.stats.objectsReclaimed
  peak : IsGreatest (Populations i ops) h.slots.size

theorem peak_concat {op : Op} {heap : Heap Finalizer}
    (peak : IsGreatest (Populations i ops) h.slots.size)
    (now : (Session.after {} (ops ++ [op])).heap? i = some heap)
    (grows : heap.slots.size = h.slots.size ∨
      heap.slots.size = h.slots.size + 1 ∧ heap.free = []) :
    IsGreatest (Populations i (ops ++ [op])) heap.slots.size := by
  have size := Heap.size_slots (sound_of_heap? now)
  have count : (Session.after {} (ops ++ [op])).liveIn i = heap.liveCount := by
    rw [liveIn, now]
    rfl
  constructor
  · apply mem_populations_concat.mpr
    rcases grows with same | ⟨_, free⟩
    · exact Or.inr (same ▸ peak.1)
    · rw [free] at size
      exact Or.inl (size.trans count.symm)
  · intro n listed
    rcases mem_populations_concat.mp listed with here | before
    · rw [here, count]
      omega
    · have := peak.2 before
      omega

namespace SlotCounts

theorem opened {config : HeapConfig} (last : (Session.after {} ops).collectors.size = i)
    (now : (Session.after {} (ops ++ [.newHeap config])).heap? i = some h)
    (new : h.slots = #[] ∧ h.free = [] ∧ h.sideTable = ∅ ∧ h.stats = {}) :
    SlotCounts i (ops ++ [.newHeap config]) h := by
  obtain ⟨slots, free, side, stats⟩ := new
  have none_given : given i {} (ops ++ [.newHeap config]) = [] := by
    rw [given_concat, given_of_unopened (Nat.le_of_eq last)]
    rfl
  have count : (Session.after {} (ops ++ [.newHeap config])).liveIn i = 0 := by
    rw [liveIn, now]
    simp [Heap.liveCount, Heap.objects, slots]
  refine ⟨fun r fs keyed => ?_, ?_, ?_, ?_, ?_⟩
  · rw [side] at keyed
    cases keyed
  · rw [none_given]
    intro r listed
    cases listed
  · rw [none_given, slots, free, stats]
    rfl
  · rw [slots]
    exact mem_populations_concat.mpr (Or.inl count.symm)
  · intro n listed
    rw [slots]
    rcases mem_populations_concat.mp listed with here | ⟨before, part, here⟩
    · exact Nat.le_of_eq (here.trans count)
    · have size := size_collectors_mono part
      rw [last] at size
      rw [here]
      simp [liveIn, heap?, collector?, size]

theorem alloc (slotCounts : SlotCounts i ops h) {kind : ObjectKind} {heap : Heap Finalizer}
    {r : ObjectRef}
    (there : (Session.after {} ops).heap? i = some h) (allocated : h.alloc kind = .ok (heap, r))
    (gives : (Session.after {} ops).givenBy i (.alloc i kind) = [r])
    (now : (Session.after {} (ops ++ [.alloc i kind])).heap? i = some heap) :
    SlotCounts i (ops ++ [.alloc i kind]) heap := by
  obtain ⟨inside, grows⟩ := Heap.alloc_grows (sound_of_heap? there) allocated
  have more : given i {} (ops ++ [.alloc i kind]) = given i {} ops ++ [r] := by
    rw [given_concat, gives]
  have count := slotCounts.count
  refine ⟨?_, ?_, ?_, peak_concat slotCounts.peak now ?_⟩
  · intro q fs keyed
    rw [Heap.sideTable_alloc allocated] at keyed
    exact slotCounts.listed q fs keyed
  · intro q listed
    rw [more, List.mem_append, List.mem_singleton] at listed
    rcases listed with old | new
    · have := slotCounts.below q old
      omega
    · exact new ▸ inside
  · rw [more, List.length_append, List.length_singleton, Heap.stats_alloc allocated]
    rcases grows with ⟨size, free⟩ | ⟨size, before, after⟩
    · omega
    · rw [before, List.length_nil] at count
      rw [after, List.length_nil]
      omega
  · rcases grows with ⟨size, _⟩ | ⟨size, _, after⟩
    · exact Or.inl size
    · exact Or.inr ⟨size, after⟩

theorem course (slotCounts : SlotCounts i ops h) {op : Op} {heap : Heap Finalizer}
    (course : h.Course heap) (gives : (Session.after {} ops).givenBy i op = [])
    (now : (Session.after {} (ops ++ [op])).heap? i = some heap) :
    SlotCounts i (ops ++ [op]) heap := by
  have noNewSlots := Heap.NoNewSlots.course course
  obtain ⟨n, free, reclaimed⟩ := noNewSlots.freed
  have same : given i {} (ops ++ [op]) = given i {} ops := by
    rw [given_concat, gives, List.append_nil]
  have count := slotCounts.count
  refine ⟨noNewSlots.listed slotCounts.listed, ?_, ?_, peak_concat slotCounts.peak now
    (Or.inl noNewSlots.size)⟩
  · rw [same, noNewSlots.size]
    exact slotCounts.below
  · rw [same, noNewSlots.size]
    omega

end SlotCounts

theorem slotCounts {c : Collector} (plain : ∀ op ∈ ops, op.scripts i = false)
    (here : (Session.after {} ops).collector? i = some c) : SlotCounts i ops c.heap := by
  refine heap_induction (P := SlotCounts i) ?_ ?_ ?_ plain here
  · intro ops config h last new now
    exact .opened last now (by rw [new]; exact ⟨rfl, rfl, rfl, rfl⟩)
  · intro ops kind h heap r there slotCounts allocated gives now
    exact slotCounts.alloc there allocated gives now
  · intro ops op h heap _ slotCounts course gives now
    exact slotCounts.course course gives now

end Session

/-- How heap `i` is laid out after a run. -/
structure Representation (i : Nat) (ops : List Op) (h : Heap Finalizer) : Prop where
  free_nodup : h.free.Nodup
  /-- The free list names the slots without an object, and each of them. -/
  mem_free : ∀ index, index ∈ h.free ↔ index < h.slots.size ∧ h.objectAt? index = none
  /-- An allocation fills a slot that had no object and leaves all others alone. -/
  alloc : ∀ kind heap r, h.alloc kind = .ok (heap, r) → r.index < heap.slots.size ∧
    h.objectAt? r.index = none ∧ ∀ q, q ≠ r → heap.object? q = h.object? q
  swept : ∀ index ∈ h.unrooted, index < h.slots.size ∧ (h.objectAt? index).isSome
  /-- The side table has finalizers of live plain objects, under the names that these have now. -/
  side : ∀ r fs, h.sideTable.get? r = some fs →
    h.kind? r = some .plain ∧ h.refAt r.index = r ∧ fs ≠ []
  direct : ∀ r o, h.object? r = some o → o.finalizers ≠ [] → o.kind = .emittable
  immediate : ∀ r, h.kind? r = some .immediate → h.pendingOf r = []
  rooted : ∀ r, h.kind? r = some .emittable → h.isReachable r = true
  count : (Session.given i {} ops).length = h.liveCount + h.stats.objectsReclaimed
  /-- There are as many slots as there were objects at one time. -/
  peak : IsGreatest (Session.Populations i ops) h.slots.size
  below : ∀ r ∈ Session.given i {} ops, r.index < h.slots.size

theorem Heap.pendingOf_immediate {φ : Type} {h : Heap φ} (sound : h.Sound) {r : ObjectRef}
    (kind : h.kind? r = some .immediate) : h.pendingOf r = [] := by
  obtain ⟨o, live, immediate⟩ := Option.map_eq_some_iff.mp kind
  have own := sound.direct r o live (by rw [immediate]; simp)
  have side : h.sideTable.get? r = none := by
    cases keyed : h.sideTable.get? r with
    | none => rfl
    | some fs =>
      obtain ⟨o', live', plain⟩ := sound.side r fs keyed
      cases live.symm.trans live'
      cases immediate.symm.trans plain
  rw [pendingOf, live, side]
  simp [own]

/-- Every heap that is there after a run is laid out so. -/
theorem heap_is_represented {i : Nat} {ops : List Op} {c : Collector}
    (plain : ∀ op ∈ ops, op.scripts i = false)
    (here : (Session.after {} ops).collector? i = some c) : Representation i ops c.heap := by
  have sound := (Session.ownership_after ops).heaps i c here
  have slotCounts := Session.slotCounts plain here
  have size := Heap.size_slots sound
  have count := slotCounts.count
  refine {
    free_nodup := sound.free_nodup
    mem_free := sound.mem_free
    alloc := fun kind heap r allocated => ?_
    swept := fun index listed => ?_
    side := fun r fs keyed => ?_
    direct := fun r o live own => ?_
    immediate := fun r => Heap.pendingOf_immediate sound
    rooted := fun r kind => ?_
    count := by omega
    peak := slotCounts.peak
    below := slotCounts.below }
  · obtain ⟨empty, _⟩ := Heap.alloc_slot sound allocated
    refine ⟨(Heap.alloc_grows sound allocated).1, ?_, fun q other => ?_⟩
    · exact Option.not_isSome_iff_eq_none.mp (by rw [← Heap.isFull, empty]; simp)
    · rw [Heap.object?_alloc sound allocated, if_neg other]
  · obtain ⟨o, live, _⟩ := c.heap.mem_unrooted.mp listed
    have name := c.heap.objectAt?_eq_some_iff.mp live
    exact ⟨c.heap.lt_size_of_object? name, by rw [live]; rfl⟩
  · obtain ⟨o, live, plain⟩ := sound.side r fs keyed
    exact ⟨by rw [Heap.kind?, live, Option.map_some, plain], c.heap.refAt_of_object? live,
      slotCounts.listed r fs keyed⟩
  · by_contra other
    exact own (sound.direct r o live other)
  · obtain ⟨o, live, emittable⟩ := Option.map_eq_some_iff.mp kind
    have roots := sound.rooted r o live emittable
    rw [Heap.isReachable, live, Option.any_some]
    exact decide_eq_true roots

/-- Of three objects two lived at one time, so there are two slots; one object was reclaimed. -/
theorem represented_after_reuse : ∃ ops c,
    ops = [.newHeap {}, .alloc 0 .emittable, .alloc 0 .plain, .define 0 ⟨1, 0⟩ "kept" [],
      .release 0 ⟨0, 0⟩, .alloc 0 .immediate] ∧
      (Session.after {} ops).collector? 0 = some c ∧ Representation 0 ops c.heap ∧
      Session.given 0 {} ops = [⟨0, 0⟩, ⟨1, 0⟩, ⟨0, 1⟩] ∧ c.heap.slots.size = 2 ∧
      c.heap.stats.objectsReclaimed = 1 := by
  obtain ⟨ops, run⟩ : ∃ ops : List Op, ops = [.newHeap {}, .alloc 0 .emittable, .alloc 0 .plain,
    .define 0 ⟨1, 0⟩ "kept" [], .release 0 ⟨0, 0⟩, .alloc 0 .immediate] := ⟨_, rfl⟩
  have plain : ∀ op ∈ ops, op.scripts 0 = false := by
    rw [run]
    decide +kernel
  have there : ((Session.after {} ops).collector? 0).map
      (fun c => (c.heap.slots.size, c.heap.stats.objectsReclaimed)) = some (2, 1) := by
    rw [run]
    decide +kernel
  obtain ⟨c, here, counts⟩ := Option.map_eq_some_iff.mp there
  obtain ⟨size, reclaimed⟩ := Prod.mk.inj counts
  refine ⟨ops, c, run, here, heap_is_represented plain here, ?_, size, reclaimed⟩
  rw [run]
  decide +kernel

end WeakRefs
