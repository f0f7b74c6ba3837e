import WeakRefs.Proofs.Binding
import WeakRefs.Proofs.HeapSteps

/-!
# Operations as steps of a heap

Each function of a session that works on heap `i` is a course of `HeapSteps i`. What it accepts is
read off its answers.
-/

namespace WeakRefs

/-- What is granted by an answer that is no error. -/
def granted {ε α β : Type} (x : β) : Except ε α → List β
  | .ok _ => [x]
  | .error _ => []

namespace Heap
variable {φ : Type} {h : Heap φ}

theorem index_mem_of_reclaimed {dead : List Nat} {x : Reclaimed φ}
    (listed : x ∈ (h.reclaimAll dead).2) : x.index ∈ dead := by
  induction dead generalizing h with
  | nil => cases listed
  | cons index rest ih =>
    rcases List.mem_cons.mp listed with first | later
    · rw [first]
      exact List.mem_cons_self
    · exact List.mem_cons_of_mem _ (ih later)

/-- When a finalizer falls due, its object is gone. -/
theorem dead_of_fallen {outcome : Heap φ × List (Reclaimed φ)} (reclamation : h.Reclamation outcome)
    {d : ObjectRef × φ} (due : d ∈ h.fallen outcome.2) : outcome.1.isLive d.1 = false := by
  obtain ⟨x, listed, named⟩ := List.mem_flatMap.mp due
  obtain ⟨f, _, same⟩ := List.mem_map.mp named
  have index : d.1.index = x.index := by
    rw [← same]
    rfl
  have reclaimed {h : Heap φ} {dead : List Nat} (listed : x ∈ (h.reclaimAll dead).2) :
      (h.reclaimAll dead).1.isLive d.1 = false := by
    unfold isLive
    rw [object?_reclaimAll, if_pos (index ▸ index_mem_of_reclaimed listed)]
    rfl
  cases reclamation with
  | sweep => exact reclaimed listed
  | release r =>
    revert listed
    unfold release
    split
    · exact nofun
    · dsimp only
      split
      · exact reclaimed
      · exact nofun

end Heap

namespace Collector

theorem IsPlain.advance {c : Collector} (plain : c.IsPlain) : c.advance = c := by
  obtain ⟨heap, script, stash, reach⟩ := c
  have empty : script = [] := plain.script
  subst empty
  rfl

end Collector

namespace Session
variable {s : Session} {i : Nat} {c : Collector}

theorem setCollector_self (here : s.collector? i = some c) : s.setCollector i c = s := by
  have at_i : s.collectors[i]? = some (some c) := Option.join_eq_some_iff.mp here
  unfold setCollector
  congr 1
  apply Array.ext_getElem?
  intro j
  rw [Array.getElem?_setIfInBounds]
  split
  · rename_i same
    subst same
    rw [if_pos (s.lt_size_of_collector? here), at_i]
  · rfl

theorem isLiveIn_eq (here : s.collector? i = some c) (r : ObjectRef) :
    s.isLiveIn i r = c.heap.isLive r := by
  unfold isLiveIn
  rw [here]
  rfl

section Heaps

/-- What becomes of a definition where there is no script: it is kept, or it runs on the spot
because the target is gone, or it is refused. -/
theorem define_plain (here : s.collector? i = some c) (plain : c.IsPlain) (focus : Focus)
    (r : ObjectRef) (f : Finalizer) :
    (∃ heap a, c.heap.define r f = .kept heap a ∧
      s.define focus i r f = (s.setCollector i { c with heap }, .ok a)) ∨
    (c.heap.isLive r = false ∧
      s.define focus i r f = (s.deliverDue focus i c.heap.pins [f], .ok .indirect)) ∨
    ∃ e, c.heap.isLive r = true ∧ s.define focus i r f = (s, .error e) := by
  rw [define_pass here plain.nextDirective, plain.advance, setCollector_self here]
  split
  · rename_i heap a kept
    exact Or.inl ⟨heap, a, kept, rfl⟩
  · rename_i due
    refine Or.inr (Or.inl ⟨?_, rfl⟩)
    rw [Heap.isLive, Heap.object?_eq_none_of_due due]
    rfl
  · rename_i e refused
    refine Or.inr (Or.inr ⟨e, ?_, rfl⟩)
    unfold Heap.define at refused
    split at refused
    · cases refused
    · rename_i o live
      rw [Heap.isLive, live]
      rfl

theorem define_heapSteps (focus : Focus) (r : ObjectRef) (f : Finalizer) :
    ∃ ran, HeapSteps i (granted (r, f) (s.define focus i r f).2) ran s
      (s.define focus i r f).1 := by
  cases here : s.collector? i with
  | none =>
    unfold define
    rw [here]
    exact ⟨[], .leaves (.refl s)⟩
  | some c =>
    by_cases plain : c.IsPlain
    · rcases define_plain here plain focus r f with ⟨heap, a, kept, done⟩ | ⟨dead, done⟩ |
        ⟨e, _, done⟩
      · rw [done]
        exact ⟨[], .keep here kept⟩
      · rw [done]
        have gone : ∀ d ∈ [(r, f)], s.isLiveIn i d.1 = false := by
          intro d listed
          rw [List.mem_singleton.mp listed, isLiveIn_eq here]
          exact dead
        exact ⟨[(r, f)], .late here (.deliverAll s focus c.heap.pins gone)⟩
      · rw [done]
        exact ⟨[], .leaves (.refl s)⟩
    · refine ⟨[], .scripted here plain fun j other => ?_⟩
      have written (c' : Collector) : (s.setCollector i c').collector? j = s.collector? j := by
        rw [s.collector?_setCollector here, if_neg other]
      have delivered (t : Session) : (t.deliver focus c.heap.pins f).collector? j =
          t.collector? j := collector?_congr (t.collectors_deliver focus _ f) j
      rcases s.define_cases here focus r f with ⟨e, refused⟩ | ⟨c', ran, a, t, _, done, after⟩
      · rw [refused]
        exact written c.advance
      · rw [done]
        cases ran with
        | false =>
          have after : t = _ := after
          rw [after]
          exact written c'
        | true =>
          rcases after with after | counted
          · rw [after, delivered]
            exact written c'
          · rw [counted, collector?_modifyHeap_of_ne other, delivered]
            exact written c'

theorem settle_heapSteps (here : s.collector? i = some c) (focus : Focus)
    {outcome : Heap Finalizer × List (Reclaimed Finalizer)}
    (reclamation : c.heap.Reclamation outcome) :
    HeapSteps i [] (c.heap.fallen outcome.2) s (s.settle focus i outcome) := by
  have written := collector?_setCollector_self here { c with heap := outcome.1 }
  have leaves := LeavesHeaps.emitAll (s.setCollector i { c with heap := outcome.1 })
    (outcome.2.map fun r => .reclaimed r.index r.due.length)
  have there := (collector?_congr leaves.collectors i).trans written
  have gone : ∀ d ∈ c.heap.fallen outcome.2, isLiveIn _ i d.1 = false := fun d due =>
    (isLiveIn_eq there d.1).trans (Heap.dead_of_fallen reclamation due)
  have delivers := Delivers.deliverAll _ focus outcome.1.pins gone
  have reclaimed := HeapSteps.reclaim here reclamation leaves delivers
  unfold settle deliverDue
  rw [modifyHeap_eq here, ← c.heap.map_snd_fallen, List.length_map]
  exact reclaimed

theorem collect_heapSteps (focus : Focus) : ∃ ran, HeapSteps i [] ran s (s.collect focus i).1 := by
  cases here : s.collector? i with
  | none =>
    unfold collect
    rw [here]
    exact ⟨[], .leaves (.refl s)⟩
  | some c =>
    have settled := settle_heapSteps here focus .sweep
    have there := collector?_settle here focus c.heap.sweep
    unfold collect
    rw [here]
    dsimp only
    rw [modifyHeap_eq there]
    exact ⟨_, settled.trans ((HeapSteps.upkeep there .countCollection rfl).trans
      (.leaves (.emit _ _)))⟩

theorem releaseRoot_heapSteps (r : ObjectRef) :
    ∃ ran, HeapSteps i [] ran s (s.releaseRoot i r) := by
  unfold releaseRoot
  split
  · exact ⟨[], .leaves (.refl s)⟩
  · rename_i c here
    exact ⟨_, settle_heapSteps here .idle (.release r)⟩

theorem stats_retain {φ : Type} (h : Heap φ) (r : ObjectRef) : (h.retain r).stats = h.stats := by
  obtain ⟨slots, same⟩ := h.retain_eq r
  rw [same]

theorem retain_heapSteps (r : ObjectRef) : HeapSteps i [] [] s (s.retain i r) := by
  cases here : s.collector? i with
  | none =>
    unfold retain modifyHeap
    rw [modifyCollector_of_gone here]
    exact .leaves (.refl s)
  | some c =>
    unfold retain
    rw [modifyHeap_eq here]
    exact .upkeep here (.retain r) (congrArg HeapStats.finalizersRun (stats_retain c.heap r))

/-- Only a script holds finalizers back. -/
theorem fireStashed_heapSteps (position : Nat) :
    ∃ ran, HeapSteps i [] ran s (s.fireStashed i position).1 := by
  unfold fireStashed
  split
  · exact ⟨[], .leaves (.refl s)⟩
  rename_i c here
  split
  · exact ⟨[], .leaves (.refl s)⟩
  rename_i f stashed
  refine ⟨[], .scripted here ?_ fun j other => ?_⟩
  · intro plain
    rw [plain.stash] at stashed
    cases stashed
  · rw [collector?_congr (collectors_deliver _ _ _ _), collector?_modifyCollector,
      if_neg fun same => other same.symm]

end Heaps

section References
variable (focus : Focus)

theorem leavesHeaps_install (s : Session) (pins n : Nat) (handle : HandleId) (target : ObjectRef) :
    LeavesHeaps s (s.install pins n handle target) := by
  unfold install
  split
  · exact ⟨rfl, rfl⟩
  · exact .refl s

theorem leavesHeaps_read (s : Session) (i : Nat) (ref : WeakReference) :
    LeavesHeaps s (s.read i ref).1 := by
  unfold read
  split
  · split
    · exact .refl s
    · split
      · exact .refl s
      · exact (LeavesHeaps.of_same (s.sameButBindings_clearDead _ _ _)).trans ⟨rfl, rfl⟩
  · exact .refl s

theorem refresh_heapSteps (ref : WeakReference) :
    ∃ ran, HeapSteps i [] ran s (s.refresh focus i ref) := by
  unfold refresh
  split
  · exact collect_heapSteps focus
  · exact ⟨[], .leaves (.refl s)⟩

theorem object_heapSteps (ref : WeakReference) :
    ∃ ran, HeapSteps i [] ran s (s.object focus i ref).1 := by
  unfold object
  split
  · exact ⟨[], .leaves (.refl s)⟩
  · split
    · obtain ⟨ran, refreshed⟩ := refresh_heapSteps (s := s) (i := i) focus ref
      exact ⟨_, refreshed.trans (.leaves (leavesHeaps_read _ i ref))⟩
    · exact ⟨[], .leaves (.refl s)⟩

theorem bind_heapSteps (ref : WeakReference) (target : ObjectRef) :
    ∃ ran, HeapSteps i (granted (target, .endBinding s.cells.size ref.id)
      (s.bind focus i ref target).2.2) ran s (s.bind focus i ref target).1 := by
  unfold bind
  split
  · exact ⟨[], .leaves (.refl s)⟩
  rename_i c here
  obtain ⟨ran, defined⟩ := define_heapSteps (s := s.newCell.1) (i := i) focus target
    (.endBinding s.newCell.2 ref.id)
  have opened : HeapSteps i [] [] s s.newCell.1 := .leaves ⟨rfl, rfl⟩
  dsimp only
  generalize s.newCell.1.define focus i target (.endBinding s.newCell.2 ref.id) = done at defined
  obtain ⟨t, answer⟩ := done
  cases answer with
  | error e =>
    have forgotten : LeavesHeaps t { t with cells := s.cells } := ⟨rfl, rfl⟩
    exact ⟨_, opened.trans (defined.trans (.leaves (forgotten.trans (.emitAll _ _))))⟩
  | ok a =>
    have disarmed := LeavesHeaps.of_same (t.sameButBindings_disarm c.heap.pins ref)
    have installed := leavesHeaps_install (t.disarm c.heap.pins ref) c.heap.pins s.newCell.2 ref.id
      target
    have told : LeavesHeaps t (((t.disarm c.heap.pins ref).install c.heap.pins s.newCell.2 ref.id
        target).emit (.bound ref.id a)) := (disarmed.trans installed).trans ⟨rfl, rfl⟩
    exact ⟨_, opened.trans (defined.trans (.leaves told))⟩

theorem bindNew_heapSteps (target : ObjectRef) :
    ∃ ran, HeapSteps i (granted (target, .endBinding s.cells.size s.freshHandle.2)
      (s.bindNew focus i target).2) ran s (s.bindNew focus i target).1 := by
  obtain ⟨ran, bound⟩ := bind_heapSteps (s := s.freshHandle.1) (i := i) focus
    { id := s.freshHandle.2 }
    target
  have fresh : HeapSteps i [] [] s s.freshHandle.1 := .leaves ⟨rfl, rfl⟩
  have same : granted (target, Finalizer.endBinding s.cells.size s.freshHandle.2)
      (s.bindNew focus i target).2 = granted (target, .endBinding s.freshHandle.1.cells.size
        s.freshHandle.2) (s.freshHandle.1.bind focus i { id := s.freshHandle.2 } target).2.2 := by
    unfold bindNew
    dsimp only
    cases (s.freshHandle.1.bind focus i { id := s.freshHandle.2 } target).2.2 <;> rfl
  rw [same]
  exact ⟨_, fresh.trans bound⟩

theorem addRefTo_heapSteps (target : ObjectRef) :
    ∃ ran, HeapSteps i (granted (target, .endBinding s.cells.size s.freshHandle.2)
      (s.bindNew .idle i target).2) ran s (s.addRefTo i target).1 := by
  obtain ⟨ran, bound⟩ := bindNew_heapSteps (s := s) (i := i) .idle target
  unfold addRefTo
  dsimp only
  generalize s.bindNew .idle i target = made at bound
  obtain ⟨t, answer⟩ := made
  have added (ref : Option WeakReference) : HeapSteps i [] [] t (t.addRef ref) := .leaves ⟨rfl, rfl⟩
  cases answer with
  | error e => exact ⟨_, bound.trans (added none)⟩
  | ok ref => exact ⟨_, bound.trans (added (some ref))⟩

theorem defineOn_heapSteps (ref : WeakReference) (f : Finalizer) :
    ∃ ran, HeapSteps i ((s.object focus i ref).2.toList.flatMap fun target =>
      granted (target, f) (s.defineOn focus i ref f).2) ran s (s.defineOn focus i ref f).1 := by
  obtain ⟨ran, found⟩ := object_heapSteps (s := s) (i := i) focus ref
  unfold defineOn
  dsimp only
  generalize s.object focus i ref = done at found
  obtain ⟨t, answer⟩ := done
  cases answer with
  | none => exact ⟨ran, found⟩
  | some target =>
    obtain ⟨ran', defined⟩ := define_heapSteps (s := t) (i := i) focus target f
    dsimp only
    rw [Option.toList_some, List.flatMap_singleton]
    exact ⟨_, found.trans defined⟩

end References

section Maps

theorem leavesHeaps_pruneMap (s : Session) (m : Nat) : LeavesHeaps s (s.pruneMap m) := by
  rw [pruneMap_frame]
  exact ⟨rfl, rfl⟩

theorem leavesHeaps_placeEntry (s : Session) (roots m : Nat) (key : String) (r : WeakReference) :
    LeavesHeaps s (s.placeEntry roots m key r) := by
  unfold placeEntry
  dsimp only
  split
  · exact (LeavesHeaps.of_same (s.sameButBindings_disarm roots _)).trans ⟨rfl, rfl⟩
  · exact ⟨rfl, rfl⟩

theorem leavesHeaps_sweepEntries (s : Session) (i : Nat) (entries : List (String × WeakReference)) :
    LeavesHeaps s (s.sweepEntries i entries).1 := by
  induction entries generalizing s with
  | nil => exact .refl s
  | cons entry rest ih =>
    obtain ⟨key, r⟩ := entry
    have read := leavesHeaps_read s i r
    unfold sweepEntries
    dsimp only
    split
    · exact read.trans (ih _)
    · exact read.trans ((LeavesHeaps.of_same (sameButBindings_discard _ r)).trans (ih _))

theorem leavesHeaps_mapRemove (s : Session) (i m : Nat) (key : String) :
    LeavesHeaps s (s.mapRemove i m key).1 := by
  unfold mapRemove
  split
  · exact .refl s
  · have pruned := leavesHeaps_pruneMap s m
    dsimp only
    split
    · exact pruned
    · rename_i r _
      have read := leavesHeaps_read (s.pruneMap m) i r
      exact (pruned.trans read).trans
        ((LeavesHeaps.of_same (sameButBindings_disarm _ _ r)).trans ⟨rfl, rfl⟩)

theorem leavesHeaps_mapUpdate (s : Session) (i m : Nat) : LeavesHeaps s (s.mapUpdate i m) := by
  unfold mapUpdate
  split
  · exact .refl s
  · have pruned := leavesHeaps_pruneMap s m
    dsimp only
    split
    · exact pruned
    · rename_i map _
      have swept := pruned.trans (leavesHeaps_sweepEntries (s.pruneMap m) i map.entries.pairs)
      split
      · exact swept.trans ⟨rfl, rfl⟩
      · exact swept.trans ⟨rfl, rfl⟩

theorem mapGet_heapSteps (m : Nat) (key : String) :
    ∃ ran, HeapSteps i [] ran s (s.mapGet i m key).1 := by
  unfold mapGet
  split
  · exact ⟨[], .leaves (.refl s)⟩
  · have pruned := leavesHeaps_pruneMap s m
    dsimp only
    split
    · exact ⟨[], .leaves pruned⟩
    · rename_i r _
      obtain ⟨ran, found⟩ := object_heapSteps (s := s.pruneMap m) (i := i) (.map m) r
      exact ⟨_, (HeapSteps.leaves pruned).trans (found.trans (.leaves (leavesHeaps_pruneMap _ m)))⟩

/-- A map insert accepts the finalizer of its binding and then the report of its entry. -/
def acceptedByInsert (s : Session) (i m : Nat) (key : String) (value : ObjectRef) :
    List (ObjectRef × Finalizer) :=
  match s.map? m with
  | none => []
  | some _ =>
    let made := (s.pruneMap m).bindNew (.map m) i value
    granted (value, .endBinding s.cells.size s.freshHandle.2) made.2 ++
      granted (value, .report m key s.freshHandle.2) (s.mapInsert i m key value).2

theorem size_cells_pruneMap (s : Session) (m : Nat) :
    (s.pruneMap m).cells.size = s.cells.size := by
  cases here : s.map? m with
  | none =>
    unfold pruneMap
    rw [here]
  | some map =>
    rw [pruneMap_eq here]
    exact s.size_cells_discardAll _

theorem mapInsert_heapSteps (m : Nat) (key : String) (value : ObjectRef) :
    ∃ ran, HeapSteps i (s.acceptedByInsert i m key value) ran s (s.mapInsert i m key value).1 := by
  cases present : s.map? m with
  | none =>
    have nothing : s.mapInsert i m key value = (s, .error .deadObject) := by
      unfold mapInsert
      rw [present]
      cases s.collector? i <;> rfl
    unfold acceptedByInsert
    rw [present, nothing]
    exact ⟨[], .leaves (.refl s)⟩
  | some map =>
    have pruned := leavesHeaps_pruneMap s m
    have size := size_cells_pruneMap s m
    have handles := s.handles_pruneMap m
    have fresh : (s.pruneMap m).freshHandle.2 = s.freshHandle.2 := by
      unfold freshHandle
      rw [handles]
    obtain ⟨ran, bound⟩ := bindNew_heapSteps (s := s.pruneMap m) (i := i) (.map m) value
    rw [size, fresh] at bound
    unfold acceptedByInsert
    rw [present]
    dsimp only
    cases here : s.collector? i with
    | none =>
      have nothing : s.mapInsert i m key value = (s, .error .deadObject) := by
        unfold mapInsert
        rw [here]
      have none_bound := (bound.absent ((collector?_congr pruned.collectors i).trans here)).1
      rw [nothing, none_bound]
      exact ⟨[], .leaves (.refl s)⟩
    | some c =>
      have id {r : WeakReference} (made : ((s.pruneMap m).bindNew (.map m) i value).2 = .ok r) :
          r.id = s.freshHandle.2 := (id_of_bindNew _ _ made).trans fresh
      unfold mapInsert
      rw [here, present]
      dsimp only
      generalize (s.pruneMap m).bindNew (.map m) i value = made at bound id
      obtain ⟨t, answer⟩ := made
      have first := (HeapSteps.leaves pruned).trans bound
      cases answer with
      | error e => exact ⟨_, first⟩
      | ok r =>
        obtain ⟨ran', reported⟩ := define_heapSteps (s := t) (i := i) (.map m) value
          (.report m key r.id)
        rw [id rfl] at reported
        dsimp only
        rw [id rfl]
        generalize t.define (.map m) i value (.report m key s.freshHandle.2) = done at reported
        obtain ⟨u, answer⟩ := done
        have both := first.trans reported
        cases answer with
        | error e =>
          exact ⟨_, both.trans (.leaves (.of_same (u.sameButBindings_discard r)))⟩
        | ok a => exact ⟨_, both.trans (.leaves (leavesHeaps_placeEntry u _ m key r))⟩

end Maps

end Session

end WeakRefs
