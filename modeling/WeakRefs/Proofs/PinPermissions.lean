import WeakRefs.Proofs.PinsAcrossHeaps

/-!
# Where handles are pinned

`Guarded gone may s` says that no runtime of `gone` is alive, and that a handle is pinned only where
it `may` be: now, and by finalizers that are still kept.
-/

namespace WeakRefs

/-- Whether a finalizer pins a handle. -/
def Finalizer.Pins (h : HandleId) : Finalizer → Prop
  | user _ actions => .pin h ∈ actions
  | _ => False

namespace Session

section Pins
variable (s : Session) (focus : Focus) (i : Nat)

theorem pinsOf_collect : (s.collect focus i).1.pinsOf i = s.pinsOf i := by
  cases here : s.collector? i with
  | none =>
    unfold collect
    rw [here]
  | some c =>
    unfold pinsOf
    rw [collector?_collect here, here]
    exact congrArg some (Heap.same_reclamation (.sweep (h := c.heap))).1

/-- The collection that brings a binding up to date changes no pin set of a heap for another. -/
theorem pinsOf_object (a : WeakReference) : (s.object focus i a).1.pinsOf i = s.pinsOf i := by
  unfold object
  split
  · rfl
  · split
    · refine (pinsOf_congr (sameButBindings_read _ i a).collectors i).trans ?_
      unfold refresh
      split
      · exact s.pinsOf_collect focus i
      · rfl
    · rfl

end Pins

/-- No runtime of `gone` is alive, and handles are pinned only where they may be. -/
structure Guarded (gone : InstanceId → Prop) (may : HandleId → Nat → Prop) (s : Session) :
    Prop where
  dead : ∀ x, gone x → s.isAlive x = false
  pins : ∀ h q, h ∈ s.pinned q → may h q
  keeps : ∀ k c f h, s.collector? k = some c → c.Keeps f → f.Pins h → may h c.heap.pins

namespace Guarded
variable {gone : InstanceId → Prop} {may : HandleId → Nat → Prop} {s s' : Session}
variable {i m : Nat} {c c' : Collector} {key : String}

/-- Pins go. -/
theorem less (guarded : Guarded gone may s) (alive : s'.alive = s.alive)
    (pins : ∀ h q, h ∈ s'.pinned q → h ∈ s.pinned q) (collectors : s'.collectors = s.collectors) :
    Guarded gone may s' where
  dead x gone := by
    unfold isAlive
    rw [alive]
    exact guarded.dead x gone
  pins h q pinned := guarded.pins h q (pins h q pinned)
  keeps k c f h there := guarded.keeps k c f h ((collector?_congr collectors k).symm.trans there)

theorem of_same (guarded : Guarded gone may s) (same : SameButBindings s s')
    (pins : ∀ h q, h ∈ s'.pinned q → h ∈ s.pinned q) : Guarded gone may s' :=
  guarded.less same.alive pins same.collectors

theorem quiet (guarded : Guarded gone may s) (alive : s'.alive = s.alive)
    (pinSets : s'.pinSets = s.pinSets) (collectors : s'.collectors = s.collectors) :
    Guarded gone may s' := by
  refine guarded.less alive (fun h q => ?_) collectors
  unfold pinned
  rw [pinSets]
  exact id

theorem emitAll (guarded : Guarded gone may s) (es : List Event) :
    Guarded gone may (s.emitAll es) := by
  rw [emitAll_eq]
  exact guarded.quiet rfl rfl rfl

theorem pin (guarded : Guarded gone may s) {roots : Nat} {handle : HandleId}
    (allowed : may handle roots) : Guarded gone may (s.pin roots handle) where
  dead := guarded.dead
  pins h q pinned := by
    rcases (s.mem_pinned_pin roots q handle h).mp pinned with ⟨same, _, named⟩ | before
    · rw [← same, named]
      exact allowed
    · exact guarded.pins h q before
  keeps := guarded.keeps

theorem unpin (guarded : Guarded gone may s) (roots : Nat) (handle : HandleId) :
    Guarded gone may (s.unpin roots handle) :=
  guarded.less rfl (fun h q pinned => ((s.mem_pinned_unpin roots q handle h).mp pinned).2) rfl

theorem clearPins (guarded : Guarded gone may s) (P : Nat) : Guarded gone may (s.clearPins P) := by
  refine guarded.less rfl (fun h q pinned => ?_) rfl
  rw [Session.clearPins, pinned_modifyPins] at pinned
  split at pinned
  · exact absurd pinned (Roster.not_mem_empty h)
  · exact pinned

theorem recordTornDown (guarded : Guarded gone may s) (x : InstanceId) :
    Guarded (fun y => gone y ∨ y = x) may (s.recordTornDown x) where
  dead y named := by
    unfold Session.recordTornDown isAlive
    split
    · rename_i alive
      refine decide_eq_false fun there => ?_
      obtain ⟨other, before⟩ := Roster.mem_erase.mp there
      rcases named with named | same
      · exact absurd before (of_decide_eq_false (guarded.dead y named))
      · exact other same
    · rename_i dead
      rcases named with named | same
      · exact guarded.dead y named
      · rw [same]
        exact decide_eq_false dead
  pins := by
    unfold Session.recordTornDown
    split <;> exact guarded.pins
  keeps := by
    unfold Session.recordTornDown
    split <;> exact guarded.keeps

theorem of_gone {fewer : InstanceId → Prop} (guarded : Guarded gone may s)
    (part : ∀ x, fewer x → gone x) : Guarded fewer may s :=
  ⟨fun x named => guarded.dead x (part x named), guarded.pins, guarded.keeps⟩

theorem setCollector (guarded : Guarded gone may s) (here : s.collector? i = some c)
    (pins : c'.heap.pins = c.heap.pins)
    (keeps : ∀ f, c'.Keeps f → c.Keeps f ∨ ∀ h, f.Pins h → may h c.heap.pins) :
    Guarded gone may (s.setCollector i c') where
  dead := guarded.dead
  pins := guarded.pins
  keeps k d f h there keeping pinning := by
    rw [s.collector?_setCollector here] at there
    split at there
    · cases there
      rw [pins]
      rcases keeps f keeping with before | allowed
      · exact guarded.keeps i c f h here before pinning
      · exact allowed h pinning
    · exact guarded.keeps k d f h there keeping pinning

theorem modifyCollector (guarded : Guarded gone may s) (i : Nat) {f : Collector → Collector}
    (same : ∀ c, (f c).heap = c.heap ∧ (f c).stash = c.stash) :
    Guarded gone may (s.modifyCollector i f) := by
  cases here : s.collector? i with
  | none =>
    rw [modifyCollector_of_gone here]
    exact guarded
  | some c =>
    rw [s.modifyCollector_eq here]
    refine guarded.setCollector here (congrArg Heap.pins (same c).1) fun g keeps => Or.inl ?_
    unfold Collector.Keeps at *
    rw [(same c).1, (same c).2] at keeps
    exact keeps

theorem upkeep (guarded : Guarded gone may s) (i : Nat)
    {f : Heap Finalizer → Heap Finalizer} (upkeep : ∀ h : Heap Finalizer, h.Upkeep (f h)) :
    Guarded gone may (s.modifyHeap i f) := by
  cases here : s.collector? i with
  | none =>
    unfold modifyHeap
    rw [modifyCollector_of_gone here]
    exact guarded
  | some c =>
    rw [modifyHeap_eq here]
    refine guarded.setCollector here (Heap.same_upkeep (upkeep c.heap)).1 fun g keeps => Or.inl ?_
    unfold Collector.Keeps at *
    simp only [Heap.pendingOf_upkeep (upkeep c.heap)] at keeps
    exact keeps

section Ending
variable (guarded : Guarded gone may s)
include guarded

theorem disarm (roots : Nat) (a : WeakReference) : Guarded gone may (s.disarm roots a) :=
  guarded.of_same (s.sameButBindings_disarm roots a) fun h q pinned =>
    ((s.mem_pinned_disarm roots a q h).mp pinned).1

theorem discard (a : WeakReference) : Guarded gone may (s.discard a) :=
  guarded.of_same (s.sameButBindings_discard a) fun h q pinned =>
    ((s.mem_pinned_discard a q h).mp pinned).1

theorem discardAll (rs : List WeakReference) : Guarded gone may (s.discardAll rs) := by
  induction rs generalizing s with
  | nil => exact guarded
  | cons a rest ih => exact ih (guarded.discard a)

theorem releaseRef (roots r : Nat) : Guarded gone may (s.releaseRef roots r) := by
  unfold Session.releaseRef
  split
  · exact (guarded.disarm roots _).quiet rfl rfl rfl
  · exact guarded

theorem dropRef (r : Nat) : Guarded gone may (s.dropRef r) := by
  unfold Session.dropRef
  split
  · exact (guarded.discard _).quiet rfl rfl rfl
  · exact guarded

theorem dropMap (x : Nat) : Guarded gone may (s.dropMap x) := by
  unfold Session.dropMap
  split
  · exact (guarded.discardAll _).quiet rfl rfl rfl
  · exact guarded

theorem read (i : Nat) (a : WeakReference) : Guarded gone may (s.read i a).1 := by
  refine guarded.of_same (s.sameButBindings_read i a) fun h q => ?_
  unfold Session.read
  split
  · split
    · exact id
    · split
      · exact id
      · exact fun pinned => ((s.mem_pinned_clearDead _ _ _ q h).mp pinned).1
  · exact id

theorem pruneMap (x : Nat) : Guarded gone may (s.pruneMap x) := by
  unfold Session.pruneMap
  split
  · exact guarded
  · rename_i map _
    have placed : Guarded gone may ((s.discardAll map.prune.2).setMap x (some map.prune.1)) :=
      (guarded.discardAll _).quiet rfl rfl rfl
    dsimp only
    split
    · exact placed
    · exact placed.quiet rfl rfl rfl

theorem sweepEntries (i : Nat) (pairs : List (String × WeakReference)) :
    Guarded gone may (s.sweepEntries i pairs).1 := by
  induction pairs generalizing s with
  | nil => exact guarded
  | cons pair rest ih =>
    have found := guarded.read i pair.2
    unfold Session.sweepEntries
    dsimp only
    split
    · exact ih found
    · exact ih (found.discard pair.2)

theorem mapUpdate (i x : Nat) : Guarded gone may (s.mapUpdate i x) := by
  have pruned := guarded.pruneMap x
  unfold Session.mapUpdate
  split
  · exact guarded
  dsimp only
  split
  · exact pruned
  · rename_i map _
    have swept := pruned.sweepEntries i map.entries.pairs
    split
    · exact swept.quiet rfl rfl rfl
    · exact swept.quiet rfl rfl rfl

theorem mapRemove (i x : Nat) (key : String) : Guarded gone may (s.mapRemove i x key).1 := by
  have pruned := guarded.pruneMap x
  unfold Session.mapRemove
  split
  · exact guarded
  · rename_i c here
    dsimp only
    split
    · exact pruned
    · rename_i r _
      exact ((pruned.read i r).disarm c.heap.pins r).quiet rfl rfl rfl

theorem placeEntry (roots x : Nat) (key : String) (r : WeakReference) :
    Guarded gone may (s.placeEntry roots x key r) := by
  unfold Session.placeEntry
  dsimp only
  split
  · exact (guarded.disarm roots _).quiet rfl rfl rfl
  · exact guarded.quiet rfl rfl rfl

end Ending

section Delivery
variable (focus : Focus) {roots : Nat}

theorem onRef (guarded : Guarded gone may s) {r : Nat}
    {f : WeakReference → Session × ActionReply} (acts : ∀ ref, Guarded gone may (f ref).1) :
    Guarded gone may (s.onRef focus r f).1 := Session.onRef_induction guarded fun _ => acts

theorem onMap (guarded : Guarded gone may s) {x : Nat}
    {f : WeakValueMap → Session × ActionReply} (acts : ∀ map, Guarded gone may (f map).1) :
    Guarded gone may (s.onMap focus x f).1 := Session.onMap_induction guarded fun _ => acts

theorem act (guarded : Guarded gone may s) {a : Action}
    (allowed : ∀ h, a = .pin h → may h roots) : Guarded gone may (s.act focus roots a).1 := by
  cases a with
  | pin handle => exact guarded.pin (allowed handle rfl)
  | unpin handle => exact guarded.unpin roots handle
  | isAlive x => exact guarded
  | pinCount pins => exact guarded
  | isBound r => exact guarded.onRef focus fun _ => guarded
  | release r => exact guarded.onRef focus fun _ => guarded.releaseRef roots r
  | dropRef r => exact guarded.onRef focus fun _ => guarded.dropRef r
  | mapSize x => exact guarded.onMap focus fun _ => guarded
  | dropMap x => exact guarded.onMap focus fun _ => guarded.dropMap x

theorem actAll (guarded : Guarded gone may s) {actions : List Action}
    (allowed : ∀ h, .pin h ∈ actions → may h roots) :
    Guarded gone may (s.actAll focus roots actions).1 := by
  induction actions generalizing s with
  | nil => exact guarded
  | cons a rest ih =>
    refine ih (guarded.act focus fun h same => allowed h ?_)
      fun h listed => allowed h (List.mem_cons_of_mem a listed)
    rw [same]
    exact List.mem_cons_self

theorem deliver (guarded : Guarded gone may s) {f : Finalizer}
    (allowed : ∀ h, f.Pins h → may h roots) : Guarded gone may (s.deliver focus roots f) := by
  have logged : Guarded gone may (s.logRun f) := guarded.quiet rfl rfl rfl
  cases f with
  | endBinding d handle =>
    exact logged.of_same (sameButBindings_endBinding _ _ _ _) fun h q pinned =>
      ((mem_pinned_endBinding _ _ _ _ q h).mp pinned).1
  | report x key handle => exact logged.quiet rfl rfl rfl
  | user label actions => exact (logged.actAll focus allowed).quiet rfl rfl rfl

theorem deliverAll (guarded : Guarded gone may s) {due : List Finalizer}
    (allowed : ∀ f ∈ due, ∀ h, f.Pins h → may h roots) :
    Guarded gone may (s.deliverAll focus roots due) := by
  induction due generalizing s with
  | nil => exact guarded
  | cons f rest ih =>
    exact ih (guarded.deliver focus (allowed f List.mem_cons_self))
      fun g listed => allowed g (List.mem_cons_of_mem f listed)

end Delivery

section Heaps
variable (guarded : Guarded gone may s) (focus : Focus)
include guarded

theorem settle (here : s.collector? i = some c)
    {outcome : Heap Finalizer × List (Reclaimed Finalizer)}
    (reclamation : c.heap.Reclamation outcome) : Guarded gone may (s.settle focus i outcome) := by
  have pins := (Heap.same_reclamation reclamation).1
  have thinned : Guarded gone may (s.setCollector i { c with heap := outcome.1 }) := by
    refine guarded.setCollector here pins fun f keeps => Or.inl ?_
    rcases keeps with stashed | ⟨q, pending⟩
    · exact Or.inl stashed
    · exact Or.inr ⟨q, (Heap.mem_pendingOf_reclamation reclamation).1 q pending⟩
  unfold Session.settle deliverDue
  rw [modifyHeap_eq here]
  refine ((thinned.emitAll _).deliverAll focus fun f due h pinning => ?_).upkeep i
    fun _ => .countRun _
  obtain ⟨q, pending⟩ := (Heap.mem_pendingOf_reclamation reclamation).2 due
  rw [pins]
  exact guarded.keeps i c f h here (Or.inr ⟨q, pending⟩) pinning

theorem collect (i : Nat) : Guarded gone may (s.collect focus i).1 := by
  unfold Session.collect
  split
  · exact guarded
  · rename_i c here
    exact ((guarded.settle focus here .sweep).upkeep i fun _ => .countCollection).quiet rfl rfl rfl

theorem refresh (i : Nat) (a : WeakReference) : Guarded gone may (s.refresh focus i a) := by
  unfold Session.refresh
  split
  · exact guarded.collect focus i
  · exact guarded

theorem object (i : Nat) (a : WeakReference) : Guarded gone may (s.object focus i a).1 := by
  unfold Session.object
  split
  · exact guarded
  · split
    · exact (guarded.refresh focus i a).read i a
    · exact guarded

theorem mapGet (i x : Nat) (key : String) : Guarded gone may (s.mapGet i x key).1 := by
  have pruned := guarded.pruneMap x
  unfold Session.mapGet
  split
  · exact guarded
  · dsimp only
    split
    · exact pruned
    · exact (pruned.object (.map x) i _).pruneMap x

theorem define (r : ObjectRef) {f : Finalizer}
    (allowed : ∀ c h, s.collector? i = some c → f.Pins h → may h c.heap.pins) :
    Guarded gone may (s.define focus i r f).1 := by
  cases here : s.collector? i with
  | none =>
    unfold Session.define
    rw [here]
    exact guarded
  | some c =>
    rcases s.define_cases here focus r f with ⟨e, refused⟩ | ⟨c', ran, a, t, received, done, after⟩
    · rw [refused]
      exact guarded.setCollector here rfl fun g keeps => Or.inl keeps
    · rw [done]
      have taken : Guarded gone may (s.setCollector i c') := by
        refine guarded.setCollector here received.pins.1 fun g keeps => ?_
        rcases received.kept_cases keeps with same | kept
        · rw [same]
          exact Or.inr fun h => allowed c h here
        · exact Or.inl kept
      have delivered := taken.deliver focus fun h => allowed c h here
      cases ran with
      | false =>
        have after : t = _ := after
        rw [after]
        exact taken
      | true =>
        rcases after with after | counted
        · rw [after]
          exact delivered
        · rw [counted]
          exact delivered.upkeep i fun _ => .countRun 1

theorem defineOn (a : WeakReference) {f : Finalizer}
    (allowed : ∀ P h, s.pinsOf i = some P → f.Pins h → may h P) :
    Guarded gone may (s.defineOn focus i a f).1 := by
  have found := guarded.object focus i a
  have pins := pinsOf_object s focus i a
  unfold Session.defineOn
  dsimp only
  split
  · exact found
  · refine found.define focus _ fun c h here => allowed c.heap.pins h ?_
    rw [← pins, pinsOf, here]
    rfl

omit focus in
theorem fireStashed (i position : Nat) : Guarded gone may (s.fireStashed i position).1 := by
  unfold Session.fireStashed
  split
  · exact guarded
  rename_i c here
  split
  · exact guarded
  rename_i f stashed
  rw [s.modifyCollector_eq here]
  have taken : Guarded gone may
      (s.setCollector i { c with stash := c.stash.eraseIdx position }) := by
    refine guarded.setCollector here rfl fun g keeps => Or.inl ?_
    rcases keeps with listed | pending
    · exact Or.inl (List.mem_of_mem_eraseIdx listed)
    · exact Or.inr pending
  refine taken.deliver .idle fun h pinning => ?_
  exact guarded.keeps i c f h here (Or.inl (List.mem_of_getElem? stashed)) pinning

omit focus in
theorem alloc (sound : s.HeapsSound) (i : Nat) (kind : ObjectKind) :
    Guarded gone may (s.alloc i kind).1 := by
  unfold Session.alloc
  split
  · exact guarded
  · rename_i c here
    split
    · rename_i heap r allocated
      rw [modifyHeap_eq here]
      refine guarded.setCollector here (Heap.same_alloc allocated).1 fun f keeps => Or.inl ?_
      unfold Collector.Keeps at *
      simp only [Heap.pendingOf_alloc (sound i c here) allocated] at keeps
      exact keeps
    · exact guarded

end Heaps

section Binds
variable (guarded : Guarded gone may s) (focus : Focus)
include guarded

theorem arrive (here : s.collector? i = some c) {target : ObjectRef} {handle : HandleId}
    {d : Nat} {ran : Bool} {a : Affiliation}
    (received : c.Receives target (.endBinding d handle) c' ran a)
    (allowed : may handle c.heap.pins) :
    Guarded gone may (s.arrive i c' handle target ran a) := by
  have taken : Guarded gone may (s.setCollector i c') := by
    refine guarded.setCollector here received.pins.1 fun g keeps => ?_
    rcases received.kept_cases keeps with same | kept
    · rw [same]
      exact Or.inr fun h => False.elim
    · exact Or.inl kept
  cases ran with
  | true => exact taken.quiet rfl rfl rfl
  | false =>
    rw [← received.pins.1] at allowed
    exact (taken.pin allowed).quiet rfl rfl rfl

/-- A bind pins its handle, on the roots of its heap, only if it succeeds. -/
theorem bind {ref : WeakReference} (inside : ∀ b, ref.binding = some b → b.cell < s.cells.size)
    (target : ObjectRef) (allowed : ∀ c a, s.collector? i = some c →
      (s.bind focus i ref target).2.2 = .ok a → may ref.id c.heap.pins) :
    Guarded gone may (s.bind focus i ref target).1 := by
  cases here : s.collector? i with
  | none =>
    unfold Session.bind
    rw [here]
    exact guarded
  | some c =>
    rcases s.bind_cases here focus ref inside target with
      ⟨e, refused⟩ | ⟨c', ran, a, t, received, arrived, done⟩
    · rw [refused]
      have advanced : Guarded gone may (s.setCollector i c.advance) :=
        guarded.setCollector here rfl fun g keeps => Or.inl keeps
      exact advanced.emitAll _
    · have may_pin := allowed c a here (by rw [done])
      have here' := ((s.sameButBindings_disarm c.heap.pins ref).collector? i).trans here
      have came := (guarded.disarm c.heap.pins ref).arrive here' received may_pin
      rw [done]
      rcases arrived with arrived | counted
      · rw [arrived]
        exact came
      · rw [counted]
        exact came.upkeep i fun _ => .countRun 1

theorem bindNew (target : ObjectRef) (allowed : ∀ c r, s.collector? i = some c →
      (s.bindNew focus i target).2 = .ok r → may s.freshHandle.2 c.heap.pins) :
    Guarded gone may (s.bindNew focus i target).1 := by
  have fresh : Guarded gone may s.freshHandle.1 := guarded.quiet rfl rfl rfl
  have unbound : ∀ b, ({ id := s.freshHandle.2 } : WeakReference).binding = some b →
      b.cell < s.freshHandle.1.cells.size := fun b none => nomatch none
  refine fresh.bind focus unbound target fun c a here done => ?_
  refine allowed c (s.freshHandle.1.bind focus i { id := s.freshHandle.2 } target).2.1 here ?_
  unfold Session.bindNew
  dsimp only
  rw [done]
  rfl

theorem addRefTo (target : ObjectRef) (allowed : ∀ c r, s.collector? i = some c →
      (s.bindNew .idle i target).2 = .ok r → may s.freshHandle.2 c.heap.pins) :
    Guarded gone may (s.addRefTo i target).1 := by
  have made := guarded.bindNew .idle target allowed
  unfold Session.addRefTo
  dsimp only
  split <;> exact made.quiet rfl rfl rfl

theorem mapInsert (x : Nat) (key : String) (value : ObjectRef)
    (allowed : ∀ c map r, s.collector? i = some c → s.map? x = some map →
      ((s.pruneMap x).bindNew (.map x) i value).2 = .ok r → may s.freshHandle.2 c.heap.pins) :
    Guarded gone may (s.mapInsert i x key value).1 := by
  have pruned := guarded.pruneMap x
  unfold Session.mapInsert
  split
  · rename_i c map here present
    have fresh : (s.pruneMap x).freshHandle.2 = s.freshHandle.2 := by
      unfold freshHandle
      rw [s.handles_pruneMap x]
    have made := pruned.bindNew (.map x) value fun d r there done => by
      rw [fresh]
      exact allowed d map r ((s.collector?_pruneMap x i).symm.trans there) present done
    dsimp only
    split
    · exact made
    · rename_i r _
      have reported := made.define (.map x) value (i := i) (f := .report x key r.id)
        fun c h here => False.elim
      split
      · exact reported.discard r
      · exact reported.placeEntry c.heap.pins x key r
  · exact guarded

end Binds

theorem newPinSet (guarded : Guarded gone may s) : Guarded gone may s.newPinSet.1 := by
  refine guarded.less rfl (fun h q pinned => ?_) rfl
  change h ∈ (s.pinSets.push ∅).getD q ∅ at pinned
  rw [Array.getD_eq_getD_getElem?, Array.getElem?_push] at pinned
  unfold Session.pinned
  rw [Array.getD_eq_getD_getElem?]
  split at pinned
  · exact absurd pinned (Roster.not_mem_empty h)
  · exact pinned

theorem newHeap (guarded : Guarded gone may s) (config : HeapConfig)
    (old : ∀ x, gone x → x.raw ≤ s.runtimes) : Guarded gone may (s.newHeap config).1 where
  dead x named := by
    refine decide_eq_false fun there => ?_
    rcases Roster.mem_insert.mp there with new | before
    · have issued := old x named
      rw [new] at issued
      exact absurd issued (Nat.not_succ_le_self _)
    · exact absurd before (of_decide_eq_false (guarded.dead x named))
  pins := guarded.newPinSet.pins
  keeps k c f h there keeps := by
    rw [collector?_newHeap] at there
    split at there
    · cases there
      rcases keeps with stashed | ⟨q, pending⟩
      · cases stashed
      · rw [Heap.pendingOf_of_dead _ .empty (by simp [Heap.object?])] at pending
        cases pending
    · exact guarded.keeps k c f h there keeps

/-- A heap that is shut down is not alive, whatever its finalizers do. -/
theorem shutDownIn (guarded : Guarded gone may s) (here : s.collector? i = some c)
    {groups : List (ObjectRef × List Finalizer)} (all : groups.Perm c.heap.sideTable.pairs) :
    Guarded (fun x => gone x ∨ x = c.heap.runtime) may (s.shutDownIn i c.heap groups) := by
  have tornDown := guarded.recordTornDown c.heap.runtime
  have there := (s.collector?_recordTornDown c.heap.runtime i).trans here
  have closed {t : Session} (guarded : Guarded (fun x => gone x ∨ x = c.heap.runtime) may t) :
      Guarded (fun x => gone x ∨ x = c.heap.runtime) may
        { t.clearPins c.heap.pins with collectors := t.collectors.setIfInBounds i none } := by
    have cleared := guarded.clearPins c.heap.pins
    refine ⟨cleared.dead, cleared.pins, fun k d f h at_k => guarded.keeps k d f h ?_⟩
    unfold collector? at at_k ⊢
    rw [Array.getElem?_setIfInBounds] at at_k
    split at at_k
    · split at at_k <;> cases at_k
    · exact at_k
  unfold Session.shutDownIn
  dsimp only
  cases c.heap.config.teardown with
  | fire =>
    rw [modifyHeap_eq there]
    have emptied : Guarded (fun x => gone x ∨ x = c.heap.runtime) may
        ((s.recordTornDown c.heap.runtime).setCollector i { c with heap := c.heap.emptied }) := by
      refine tornDown.setCollector there rfl fun f keeps => Or.inl ?_
      rcases keeps with stashed | ⟨q, pending⟩
      · exact Or.inl stashed
      · rw [Heap.pendingOf_emptied] at pending
        cases pending
    refine closed (emptied.deliverAll .idle fun f due h pinning => ?_)
    obtain ⟨q, pending⟩ := (Heap.mem_drained all f).mp due
    exact guarded.keeps i c f h here (Or.inr ⟨q, pending⟩) pinning
  | drop => exact closed (tornDown.quiet rfl rfl rfl)

end Guarded

end Session

end WeakRefs
