import WeakRefs.Proofs.Alike.Operations
import WeakRefs.Proofs.BatchOutcome
import WeakRefs.Proofs.Teardown

/-!
# The order of a shutdown does not matter

All orders in which the side table is drained leave sessions that are alike, as long as all binds
were made through this heap.
-/

namespace WeakRefs

theorem allPinnedIn_after {ops : List Op} {i : Nat} {c : Collector}
    (only : ∀ op ∈ ops, op.bindsThrough i = true)
    (here : (Session.after {} ops).collector? i = some c) :
    (Session.after {} ops).AllPinnedIn c.heap.pins := by
  have through (h : HandleId) : Session.BindsThrough {} i h ops := by
    intro e listed _
    obtain ⟨t, op, among, binds⟩ := Session.mem_trace _ listed
    have this_heap := only op among
    unfold Session.bindings at binds
    unfold Op.bindsThrough at this_heap
    split at binds
    · rename_i bound target _ works
      cases List.mem_singleton.mp binds
      rw [works] at this_heap
      exact of_decide_eq_true this_heap
    · cases binds
  intro p a b held binding
  have boundTo : BoundTo a.id c.heap.runtime c.heap.pins ⟨Session.after {} ops, none, [], []⟩ :=
    BoundTo.empty.run ownership_empty (fun _ part => Session.knows_before here part) (through a.id)
  exact (boundTo p a b ((Moment.held_atRest _ p).trans held) rfl binding).2

section ShutDown
variable {s : Session} {i : Nat} {h : Heap Finalizer}
variable {groups groups' : List (ObjectRef × List Finalizer)} (perm : groups'.Perm groups)
include perm

theorem due_perm : (h.pendingDirect ++ groups'.flatMap Prod.snd).Perm
    (h.pendingDirect ++ groups.flatMap Prod.snd) := (perm.flatMap_right Prod.snd).append_left _

/-- Where all pins of bindings are in the pin set of the heap, a shutdown does not show in which
order the side table was drained. -/
theorem Session.AllPinnedIn.shutDownIn (allPinned : s.AllPinnedIn h.pins) :
    (s.shutDownIn i h groups).Alike (s.shutDownIn i h groups') := by
  unfold Session.shutDownIn
  dsimp only
  split
  · have same : ((s.recordTornDown h.runtime).modifyHeap i Heap.emptied).refs = s.refs ∧
        ((s.recordTornDown h.runtime).modifyHeap i Heap.emptied).maps = s.maps := by
      unfold recordTornDown
      split <;> exact ⟨rfl, rfl⟩
    have allPinned : ((s.recordTornDown h.runtime).modifyHeap i Heap.emptied).AllPinnedIn h.pins :=
      fun p a b held => allPinned p a b ((held_congr same.1 same.2 p).symm.trans held)
    have alike := (Outcome.deliverAll allPinned _).alike (Outcome.deliverAll allPinned _)
      ((due_perm (h := h) perm).flatMap_right Finalizer.errands)
    exact alike.close i
  · have discarded := (Alike.refl (s.recordTornDown h.runtime)).emit
      (.discarded (h.pendingDirect ++ groups.flatMap Prod.snd).length)
      (.discarded (h.pendingDirect ++ groups'.flatMap Prod.snd).length)
    exact (discarded.modifyPins h.pins fun _ => ∅).close i

theorem runs_shutDownIn_perm :
    (s.shutDownIn i h groups').runs.toList.Perm (s.shutDownIn i h groups).runs.toList := by
  rw [Session.runs_shutDownIn, Session.runs_shutDownIn]
  split
  · rw [Array.toList_append, Array.toList_append]
    exact (due_perm perm).append_left _
  · exact .refl _

end ShutDown

/-- In whatever order the side table is drained, a shutdown leaves sessions that are alike, the same
finalizers run, and whatever is asked afterwards has the same answers. -/
theorem shutDown_ignores_order {ops : List Op} {i : Nat} {c : Collector}
    {groups groups' : List (ObjectRef × List Finalizer)} {s s' : Session}
    (only : ∀ op ∈ ops, op.bindsThrough i = true)
    (here : (Session.after {} ops).collector? i = some c)
    (all : groups.Perm c.heap.sideTable.pairs) (all' : groups'.Perm c.heap.sideTable.pairs)
    (closed : s = (Session.after {} ops).shutDownIn i c.heap groups)
    (closed' : s' = (Session.after {} ops).shutDownIn i c.heap groups') :
    s.Alike s' ∧ s'.runs.toList.Perm s.runs.toList ∧
      ∀ more, (s.after more).Alike (s'.after more) ∧ s'.replies more = s.replies more := by
  subst closed closed'
  have perm := all'.trans all.symm
  have alike := (allPinnedIn_after only here).shutDownIn (i := i) perm
  have ownership := Ownership.shutDownIn here all (Session.ownership_after ops)
  exact ⟨alike, runs_shutDownIn_perm perm, fun more => alike.after ownership more⟩

/-- The finalizer of one value releases the reference to another one, drops the map and pins a
handle. -/
theorem shutDown_in_both_orders : ∃ ops c s s',
    ops = [.newHeap {}, .alloc 0 .plain, .alloc 0 .plain, .newMap, .mapInsert 0 0 "key" ⟨0, 0⟩,
      .newRefTo 0 ⟨0, 0⟩, .define 0 ⟨1, 0⟩ "late" [.release 0, .dropMap 0, .pin ⟨1⟩]] ∧
    (Session.after {} ops).collector? 0 = some c ∧
    s = (Session.after {} ops).shutDownIn 0 c.heap c.heap.sideTable.pairs ∧
    s' = (Session.after {} ops).shutDownIn 0 c.heap c.heap.sideTable.pairs.reverse ∧
    s.runs ≠ s'.runs ∧ s.Alike s' ∧ s'.runs.toList.Perm s.runs.toList ∧
    s'.replies [.newHeap {}, .inspect 0, .mapSize 0] =
      s.replies [.newHeap {}, .inspect 0, .mapSize 0] := by
  obtain ⟨ops, run⟩ : ∃ ops : List Op, ops = [.newHeap {}, .alloc 0 .plain, .alloc 0 .plain,
    .newMap, .mapInsert 0 0 "key" ⟨0, 0⟩, .newRefTo 0 ⟨0, 0⟩,
    .define 0 ⟨1, 0⟩ "late" [.release 0, .dropMap 0, .pin ⟨1⟩]] := ⟨_, rfl⟩
  have only : ∀ op ∈ ops, op.bindsThrough 0 = true := by simp [run, Op.bindsThrough, Op.target?]
  have present : ((Session.after {} ops).collector? 0).any (fun c =>
      ((Session.after {} ops).shutDownIn 0 c.heap c.heap.sideTable.pairs).runs ≠
        ((Session.after {} ops).shutDownIn 0 c.heap c.heap.sideTable.pairs.reverse).runs) =
          true := by
    rw [run]
    decide +kernel
  obtain ⟨c, here, differ⟩ := (Option.any_eq_true _ _).mp present
  obtain ⟨alike, perm, later⟩ := shutDown_ignores_order only here (.refl _) (List.reverse_perm _)
    rfl rfl
  exact ⟨ops, c, _, _, run, here, rfl, rfl, of_decide_eq_true differ, alike, perm, (later _).2⟩

end WeakRefs
