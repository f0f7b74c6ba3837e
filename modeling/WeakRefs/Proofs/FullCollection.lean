import WeakRefs.Proofs.HeapLayout

/-!
# What a collection reclaims

A collection reclaims the objects without a root, by ascending slot, and then runs what was pending
on them. Whoever has a root is left as it was.
-/

namespace WeakRefs

namespace Heap
variable {φ : Type} (h : Heap φ)

/-- The objects without a root, by ascending slot. -/
def condemned : List ObjectRef := h.unrooted.map h.refAt

theorem mem_condemned {q : ObjectRef} :
    q ∈ h.condemned ↔ ∃ o, h.object? q = some o ∧ o.roots = 0 := by
  unfold condemned
  rw [List.mem_map]
  constructor
  · rintro ⟨index, listed, rfl⟩
    obtain ⟨o, there, rootless⟩ := h.mem_unrooted.mp listed
    exact ⟨o, h.objectAt?_eq_some_iff.mp there, rootless⟩
  · rintro ⟨o, live, rootless⟩
    refine ⟨q.index, ?_, h.refAt_of_object? live⟩
    apply h.mem_unrooted.mpr
    exact ⟨o, h.objectAt?_of_object? live, rootless⟩

theorem pairwise_condemned : h.condemned.Pairwise fun a b => a.index < b.index := by
  unfold condemned unrooted
  apply List.Pairwise.map
  · exact fun a b less => less
  · exact List.pairwise_lt_range.filter _

theorem length_condemned : h.condemned.length = h.sweep.2.length := by
  rw [length_sweep, condemned, List.length_map]

theorem due_sweep :
    h.sweep.2.flatMap Reclaimed.due = h.condemned.flatMap h.pendingOf := by
  unfold sweep condemned
  rw [reclaimed_eq h.nodup_unrooted, List.flatMap_map, List.flatMap_map]

theorem stats_reclaimAll (dead : List Nat) : (h.reclaimAll dead).1.stats =
    { h.stats with objectsReclaimed := h.stats.objectsReclaimed + dead.length } := by
  induction dead generalizing h with
  | nil => rfl
  | cons index rest ih =>
    have later : (h.reclaimAll (index :: rest)).1 = ((h.reclaim index).1.reclaimAll rest).1 := rfl
    have first : (h.reclaim index).1.stats =
        { h.stats with objectsReclaimed := h.stats.objectsReclaimed + 1 } := rfl
    rw [later, ih, first, List.length_cons]
    simp only [HeapStats.mk.injEq, true_and, and_true]
    omega

theorem stats_sweep : h.sweep.1.stats =
    { h.stats with objectsReclaimed := h.stats.objectsReclaimed + h.condemned.length } := by
  rw [length_condemned, length_sweep]
  exact h.stats_reclaimAll h.unrooted

theorem unrooted_sweep : h.sweep.1.unrooted = [] := by
  apply List.eq_nil_iff_forall_not_mem.mpr
  intro index listed
  obtain ⟨o, there, rootless⟩ := mem_unrooted _ |>.mp listed
  have live := objectAt?_eq_some_iff _ |>.mp there
  rw [object?_sweep, Option.filter_eq_some_iff, decide_eq_true_eq] at live
  omega

section Sound
variable {h}
variable (sound : h.Sound)
include sound

/-- An emittable object goes with its last root, so a sweep never meets one. -/
theorem kind_of_condemned {q : ObjectRef} (doomed : q ∈ h.condemned) :
    h.kind? q ≠ some .emittable := by
  obtain ⟨o, live, rootless⟩ := h.mem_condemned.mp doomed
  intro kind
  rw [kind?, live, Option.map_some, Option.some.injEq] at kind
  have rooted := sound.rooted q o live kind
  omega

theorem liveCount_sweep : h.sweep.1.liveCount + h.condemned.length = h.liveCount := by
  have before := size_slots sound
  have after := size_slots (reclaims_sweep sound).sound
  have noNewSlots := NoNewSlots.reclamation (h := h) .sweep
  obtain ⟨n, freed, reclaimed⟩ := noNewSlots.freed
  rw [stats_sweep] at reclaimed
  have size := noNewSlots.size
  dsimp only at reclaimed
  omega

end Sound

end Heap

namespace Session

/-- What a collection of heap `i` comes to that answers `n`, where the heap was `h` before. -/
structure Collects (s s' : Session) (i n : Nat) (h : Heap Finalizer) : Prop where
  /-- As many objects go as have no root, and none of them is emittable. -/
  count : n = h.condemned.length
  kind : ∀ q ∈ h.condemned, h.kind? q ≠ some .emittable
  /-- Just these are gone. All others are what they were, with what is pending on them. -/
  heap : ∃ c, s'.collector? i = some c ∧
    (∀ q o, c.heap.object? q = some o ↔ h.object? q = some o ∧ q ∉ h.condemned) ∧
    (∀ q o, c.heap.object? q = some o → c.heap.pendingOf q = h.pendingOf q) ∧
    c.heap.liveCount + n = h.liveCount ∧
    c.heap.stats = {
      collections := h.stats.collections + 1
      objectsReclaimed := h.stats.objectsReclaimed + n
      finalizersRun := h.stats.finalizersRun + (h.condemned.flatMap h.pendingOf).length }
  ran : s'.runs = s.runs ++ (h.condemned.flatMap h.pendingOf).toArray

variable {s : Session} {i : Nat} {c : Collector}

theorem runs_settle (s : Session) (focus : Focus) (i : Nat)
    (outcome : Heap Finalizer × List (Reclaimed Finalizer)) :
    (s.settle focus i outcome).runs =
      s.runs ++ (outcome.2.flatMap Reclaimed.due).toArray := by
  unfold settle deliverDue modifyHeap modifyCollector
  dsimp only
  rw [runs_deliverAll, emitAll_eq]

theorem runs_collect (here : s.collector? i = some c) (focus : Focus) :
    (s.collect focus i).1.runs = s.runs ++ (c.heap.condemned.flatMap c.heap.pendingOf).toArray := by
  have settled := s.runs_settle focus i c.heap.sweep
  rw [c.heap.due_sweep] at settled
  unfold collect
  rw [here]
  exact settled

theorem answer_collect (here : s.collector? i = some c) (focus : Focus) :
    (s.collect focus i).2 = c.heap.condemned.length := by
  unfold collect
  rw [here, c.heap.length_condemned]

theorem collects (here : s.collector? i = some c) (sound : c.heap.Sound) (focus : Focus) :
    Collects s (s.collect focus i).1 i (s.collect focus i).2 c.heap := by
  rw [answer_collect here]
  refine ⟨rfl, fun q => Heap.kind_of_condemned sound, ?_, runs_collect here focus⟩
  refine ⟨_, collector?_collect here focus, fun q o => ?_, fun q o kept => ?_, ?_, ?_⟩
  · change c.heap.sweep.1.object? q = some o ↔ _
    rw [Heap.object?_sweep, Option.filter_eq_some_iff, decide_eq_true_eq, Heap.mem_condemned]
    refine and_congr_right fun live => ?_
    constructor
    · rintro rooted ⟨o', live', rootless⟩
      cases live.symm.trans live'
      omega
    · intro spared
      apply Nat.pos_of_ne_zero
      exact fun rootless => spared ⟨o, live, rootless⟩
  · exact ((Heap.reclaims_sweep sound).survivor q o kept).2
  · exact Heap.liveCount_sweep sound
  · rw [← c.heap.due_sweep]
    have stats := c.heap.stats_sweep
    simp only [Heap.countRun, Heap.countCollection, stats]

theorem collect_again (here : s.collector? i = some c) (focus again : Focus) :
    ((s.collect focus i).1.collect again i).2 = 0 ∧
      ((s.collect focus i).1.collect again i).1.runs = (s.collect focus i).1.runs := by
  have there := collector?_collect here focus
  have spared : (c.heap.sweep.1.countRun
      (c.heap.sweep.2.flatMap Reclaimed.due).length).countCollection.condemned = [] :=
    congrArg (List.map c.heap.sweep.1.refAt) c.heap.unrooted_sweep
  rw [answer_collect there, runs_collect there, spared]
  exact ⟨rfl, Array.append_empty⟩

theorem outstanding_sublist (i : Nat) (s : Session) (owed : List (ObjectRef × Finalizer))
    (ops : List Op) :
    (outstanding i s owed ops).Sublist (owed ++ definitions i s ops) := by
  induction ops generalizing s owed with
  | nil =>
    rw [definitions, List.append_nil]
    exact List.Sublist.refl owed
  | cons op rest ih =>
    rw [definitions, ← List.append_assoc]
    have left : (s.owedAfter i owed op).Sublist (owed ++ s.acceptedBy i op) := List.filter_sublist
    exact (ih (s.perform op).1 (s.owedAfter i owed op)).trans (left.append_right _)

end Session

/-- A collection reclaims exactly the objects without a root and answers their number. Their
finalizers run by slot and then by definition. A second collection finds nothing to do. -/
theorem collection_reclaims_unrooted {ops : List Op} {s : Session} (run : s = Session.after {} ops)
    {i : Nat} {c : Collector} (here : s.collector? i = some c) (focus : Focus) :
    (∀ q, q ∈ c.heap.condemned ↔ ∃ o, c.heap.object? q = some o ∧ o.roots = 0) ∧
    (c.heap.condemned.Pairwise fun a b => a.index < b.index) ∧
    s.Collects (s.collect focus i).1 i (s.collect focus i).2 c.heap ∧
    (∀ again, ((s.collect focus i).1.collect again i).2 = 0 ∧
      ((s.collect focus i).1.collect again i).1.runs = (s.collect focus i).1.runs) ∧
    ((∀ op ∈ ops, op.scripts i = false) →
      ∃ owed, List.Sublist owed (Session.definitions i {} ops) ∧
        ∀ q, c.heap.pendingOf q = (owed.filter fun d => d.1 = q).map Prod.snd) := by
  have sound : c.heap.Sound := (Session.ownership_after ops).heaps i c (run ▸ here)
  refine ⟨fun q => c.heap.mem_condemned, c.heap.pairwise_condemned,
    Session.collects here sound focus, Session.collect_again here focus, fun plain => ?_⟩
  have heapBalance := (Session.RunBalance.start.run plain).there c (run ▸ here)
  exact ⟨_, Session.outstanding_sublist i {} [] ops, heapBalance.owes⟩

/-- Two plain objects and, in a slot that was used before, an immediate one have no root. -/
theorem collection_of_three : ∃ s c, s = Session.after {} [.newHeap {}, .alloc 0 .plain,
      .alloc 0 .emittable, .alloc 0 .plain, .define 0 ⟨2, 0⟩ "last" [], .define 0 ⟨0, 0⟩ "first" [],
      .define 0 ⟨0, 0⟩ "second" [], .release 0 ⟨1, 0⟩, .alloc 0 .immediate, .release 0 ⟨0, 0⟩,
      .release 0 ⟨1, 1⟩, .release 0 ⟨2, 0⟩] ∧
    s.collector? 0 = some c ∧ s.Collects (s.collect .idle 0).1 0 3 c.heap ∧
    c.heap.condemned = [⟨0, 0⟩, ⟨1, 1⟩, ⟨2, 0⟩] ∧
    (s.collect .idle 0).1.runs = #[.user "first" [], .user "second" [], .user "last" []] := by
  obtain ⟨s, run⟩ : ∃ s, s = Session.after {} [.newHeap {}, .alloc 0 .plain,
    .alloc 0 .emittable, .alloc 0 .plain, .define 0 ⟨2, 0⟩ "last" [], .define 0 ⟨0, 0⟩ "first" [],
    .define 0 ⟨0, 0⟩ "second" [], .release 0 ⟨1, 0⟩, .alloc 0 .immediate, .release 0 ⟨0, 0⟩,
    .release 0 ⟨1, 1⟩, .release 0 ⟨2, 0⟩] := ⟨_, rfl⟩
  have there : (s.collector? 0).map (fun c => c.heap.condemned) =
      some [⟨0, 0⟩, ⟨1, 1⟩, ⟨2, 0⟩] := by
    rw [run]
    decide +kernel
  have three : (s.collect .idle 0).2 = 3 := by
    rw [run]
    decide +kernel
  obtain ⟨c, here, condemned⟩ := Option.map_eq_some_iff.mp there
  have collects := (collection_reclaims_unrooted run here .idle).2.2.1
  rw [three] at collects
  refine ⟨s, c, run, here, collects, condemned, ?_⟩
  rw [run]
  decide +kernel

end WeakRefs
