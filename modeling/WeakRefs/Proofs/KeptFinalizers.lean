import WeakRefs.Proofs.BindingOrigins

/-!
# Finalizers that are kept

A heap without a script keeps a finalizer on its target, once and nowhere else, until the target is
reclaimed; then the finalizer runs next.
-/

namespace WeakRefs

/-- The kind of objects that finalizers of an affiliation are attached to. -/
def Affiliation.kind : Affiliation → ObjectKind
  | direct => .emittable
  | indirect => .plain

namespace Collector

/-- The finalizer is kept on a live target of this kind, once, and on no other. -/
structure KeepsOnce (c : Collector) (f : Finalizer) (kind : ObjectKind) (target : ObjectRef) :
    Prop where
  live : c.heap.kind? target = some kind
  once : (c.heap.pendingOf target).count f = 1
  only : ∀ q, f ∈ c.heap.pendingOf q → q = target

/-- As far as one finalizer goes, a collector keeps what it kept. -/
structure Retains (c c' : Collector) (f : Finalizer) : Prop where
  stash : f ∈ c'.stash → f ∈ c.stash
  pending : ∀ q, (c'.heap.pendingOf q).count f = (c.heap.pendingOf q).count f
  kind : ∀ q k, c.heap.kind? q = some k → c'.heap.kind? q = some k

namespace Retains
variable {c c' : Collector} {f : Finalizer}

theorem mem (retains : Retains c c' f) {q : ObjectRef} (kept : f ∈ c'.heap.pendingOf q) :
    f ∈ c.heap.pendingOf q := by
  have counted := List.count_pos_iff.mpr kept
  rw [retains.pending] at counted
  exact List.count_pos_iff.mp counted

theorem keptOnce (retains : Retains c c' f) {kind : ObjectKind} {target : ObjectRef}
    (keptOnce : c.KeepsOnce f kind target) : c'.KeepsOnce f kind target where
  live := retains.kind target kind keptOnce.live
  once := (retains.pending target).trans keptOnce.once
  only q kept := keptOnce.only q (retains.mem kept)

theorem of_heap (heap : c'.heap = c.heap) (stash : f ∈ c'.stash → f ∈ c.stash) :
    Retains c c' f := by
  refine ⟨stash, ?_, ?_⟩
  · intro q
    rw [heap]
  · intro q k here
    rw [heap]
    exact here

theorem alloc {kind : ObjectKind} {heap : Heap Finalizer} {r : ObjectRef} (sound : c.heap.Sound)
    (allocated : c.heap.alloc kind = .ok (heap, r)) : Retains c { c with heap } f := by
  refine ⟨id, ?_, ?_⟩
  · intro q
    exact congrArg (List.count f) (Heap.pendingOf_alloc sound allocated q)
  · intro q k here
    have elsewhere : q ≠ r := by
      intro same
      rw [Heap.kind?, same, Heap.alloc_dead sound allocated] at here
      cases here
    rw [Heap.kind?, Heap.object?_alloc sound allocated, if_neg elsewhere]
    exact here

theorem upkeep {heap : Heap Finalizer} (upkeep : c.heap.Upkeep heap) :
    Retains c { c with heap } f := by
  refine ⟨id, ?_, ?_⟩
  · intro q
    exact congrArg (List.count f) (Heap.pendingOf_upkeep upkeep q)
  · intro q k here
    exact (Heap.kind?_upkeep upkeep q).trans here

theorem receives {r : ObjectRef} {g : Finalizer} {ran : Bool} {a : Affiliation}
    (received : c.Receives r g c' ran a) (other : f ≠ g) : Retains c c' f := by
  cases received with
  | kept kept =>
    refine ⟨id, ?_, ?_⟩
    · intro q
      have added := (Heap.pendingOf_define kept q).count_eq f
      rw [List.count_append] at added
      have none_added : (if q = r then [g] else []).count f = 0 := by
        rw [List.count_eq_zero]
        intro listed
        split at listed
        · exact other (List.mem_singleton.mp listed)
        · cases listed
      rw [none_added] at added
      exact added
    · intro q k here
      exact (Heap.kind?_define kept q).trans here
  | due _ => exact .of_heap rfl id
  | now _ _ => exact .of_heap rfl id
  | stashed _ _ =>
    refine .of_heap rfl ?_
    intro stashed
    rcases List.mem_append.mp stashed with before | new
    · exact before
    · exact absurd (List.mem_singleton.mp new) other
  | lost _ _ => exact .of_heap rfl id

end Retains

namespace KeepsOnce
variable {c : Collector} {f : Finalizer} {kind : ObjectKind} {target : ObjectRef}

theorem mem (keptOnce : c.KeepsOnce f kind target) : f ∈ c.heap.pendingOf target := by
  have once := keptOnce.once
  exact List.count_pos_iff.mp (by omega)

/-- A heap that did not have a finalizer keeps it once. -/
theorem of_kept {heap : Heap Finalizer} {a : Affiliation}
    (kept : c.heap.define target f = .kept heap a) (new : ∀ q, f ∉ c.heap.pendingOf q) :
    ({ c with heap } : Collector).KeepsOnce f a.kind target := by
  have pending (q : ObjectRef) := Heap.pendingOf_define kept q
  refine ⟨?_, ?_, ?_⟩
  · change heap.kind? target = _
    rw [Heap.kind?_define kept]
    obtain ⟨o, live, ⟨kind, same, _⟩ | ⟨kind, same, _⟩⟩ := Heap.define_cases kept
    · rw [Heap.kind?, live, same]
      exact congrArg some kind
    · rw [Heap.kind?, live, same]
      exact congrArg some kind
  · have counted := (pending target).count_eq f
    rw [if_pos rfl, List.count_append, List.count_eq_zero.mpr (new target)] at counted
    simpa using counted
  · intro q there
    have there : f ∈ heap.pendingOf q := there
    rcases List.mem_append.mp ((pending q).mem_iff.mp there) with before | added
    · exact absurd before (new q)
    · split at added
      · rename_i same
        exact same
      · cases added

/-- Of what a heap reclaims, only a finalizer whose target dies is due. -/
theorem reclaim (keptOnce : c.KeepsOnce f kind target)
    {outcome : Heap Finalizer × List (Reclaimed Finalizer)} (reclaims : c.heap.Reclaims outcome) :
    (({ c with heap := outcome.1 } : Collector).KeepsOnce f kind target ∧
        f ∉ outcome.2.flatMap Reclaimed.due) ∨
      (f ∈ outcome.2.flatMap Reclaimed.due ∧ outcome.1.object? target = none) := by
  cases live : outcome.1.object? target with
  | none => exact Or.inr ⟨(reclaims.mem_due f).mpr ⟨target, live, keptOnce.mem⟩, rfl⟩
  | some o =>
    obtain ⟨⟨o', before, same⟩, pending⟩ := reclaims.survivor target o live
    refine Or.inl ⟨⟨?_, ?_, ?_⟩, ?_⟩
    · change outcome.1.kind? target = _
      have kind := keptOnce.live
      rw [Heap.kind?, before, Option.map_some, same] at kind
      rw [Heap.kind?, live]
      exact kind
    · change (outcome.1.pendingOf target).count f = 1
      rw [pending]
      exact keptOnce.once
    · intro q there
      have there : f ∈ outcome.1.pendingOf q := there
      obtain ⟨p, survives⟩ := Heap.live_of_mem_pendingOf _ reclaims.sound there
      rw [(reclaims.survivor q p survives).2] at there
      exact keptOnce.only q there
    · intro due
      obtain ⟨q, dead, there⟩ := (reclaims.mem_due f).mp due
      rw [keptOnce.only q there, live] at dead
      cases dead

end KeepsOnce

end Collector

def Session.HasDone (s : Session) : Finalizer → Prop
  | .endBinding c _ => (s.cell c).isBound = false
  | .report x key handle => ∀ map, s.map? x = some map → (key, handle) ∈ map.dead
  | .user _ _ => True

/-- Heap `i` keeps a finalizer on its target, and nobody else has it. -/
structure KeptInHeap (i : Nat) (f : Finalizer) (kind : ObjectKind) (target : ObjectRef)
    (m : Moment) :
    Prop where
  keptBy : ∃ c, m.session.collector? i = some c ∧ c.KeepsOnce f kind target
  stash : ∀ j d, m.session.collector? j = some d → f ∉ d.stash
  alone : ∀ j d, m.session.collector? j = some d → j ≠ i → ∀ q, f ∉ d.heap.pendingOf q
  rests : f ∉ m.flight

/-- A finalizer that was kept is kept, or its target is gone and it runs next, or the heap has been
shut down. -/
def KeptInHeap.Becomes (i : Nat) (f : Finalizer) (kind : ObjectKind) (target : ObjectRef)
    (m : Moment) :
    Prop :=
  KeptInHeap i f kind target m ∨
    (f ∈ m.flight ∧ ∀ c, m.session.collector? i = some c → c.heap.object? target = none) ∨
    m.session.collector? i = none

namespace KeptInHeap
variable {i : Nat} {f : Finalizer} {kind : ObjectKind} {target : ObjectRef}
variable {s : Session} {hand : Option WeakReference} {running : List Action}
variable {flight : List Finalizer} {m' : Moment}

theorem same (inHeap : KeptInHeap i f kind target ⟨s, hand, running, flight⟩)
    (same : m'.session.collectors = s.collectors) (rests : f ∈ m'.flight → f ∈ flight) :
    KeptInHeap i f kind target m' := by
  have view (j : Nat) : m'.session.collector? j = s.collector? j := Session.collector?_congr same j
  refine ⟨?_, ?_, ?_, fun flies => inHeap.rests (rests flies)⟩
  · obtain ⟨c, here, keptOnce⟩ := inHeap.keptBy
    exact ⟨c, (view i).trans here, keptOnce⟩
  · intro j d there
    exact inHeap.stash j d ((view j).symm.trans there)
  · intro j d there
    exact inHeap.alone j d ((view j).symm.trans there)

theorem congr (inHeap : KeptInHeap i f kind target ⟨s, hand, running, flight⟩)
    (same : m'.session.collectors = s.collectors) (rests : f ∈ m'.flight → f ∈ flight) :
    Becomes i f kind target m' := Or.inl (inHeap.same same rests)

theorem of_kept {c : Collector} {heap : Heap Finalizer} {a : Affiliation}
    (here : s.collector? i = some c) (kept : c.heap.define target f = .kept heap a)
    (new : ¬ Moment.Awaits ⟨s, hand, running, flight⟩ f)
    (same : m'.session.collectors = s.collectors.setIfInBounds i (some { c.advance with heap }))
    (rests : f ∉ m'.flight) : KeptInHeap i f a.kind target m' := by
  have view (j : Nat) := (Session.collector?_congr (s := s.setCollector i { c.advance with heap })
    same j).trans (s.collector?_setCollector here _ j)
  have unkept : ∀ q, f ∉ c.heap.pendingOf q := by
    intro q pending
    exact new (Or.inl ⟨i, c, here, Or.inr ⟨q, pending⟩⟩)
  refine ⟨⟨_, (view i).trans (if_pos rfl), .of_kept (c := c.advance) kept unkept⟩, ?_, ?_, rests⟩
  · intro j d there stashed
    replace there := (view j).symm.trans there
    split at there
    · cases there
      exact new (Or.inl ⟨i, c, here, Or.inl stashed⟩)
    · exact new (Or.inl ⟨j, d, there, Or.inl stashed⟩)
  · intro j d there other q pending
    replace there := (view j).symm.trans there
    rw [if_neg other] at there
    exact new (Or.inl ⟨j, d, there, Or.inr ⟨q, pending⟩⟩)

/-- Collector `j` changes, without taking the finalizer in. -/
theorem set (inHeap : KeptInHeap i f kind target ⟨s, hand, running, flight⟩) {j : Nat}
    {c c' : Collector} (here : s.collector? j = some c)
    (same : m'.session.collectors = s.collectors.setIfInBounds j (some c'))
    (stash : f ∈ c'.stash → f ∈ c.stash)
    (pending : ∀ q, f ∈ c'.heap.pendingOf q → f ∈ c.heap.pendingOf q)
    (still : i = j → c.KeepsOnce f kind target → c'.KeepsOnce f kind target)
    (rests : f ∉ m'.flight) :
    Becomes i f kind target m' := by
  have view (k : Nat) : m'.session.collector? k = if k = j then some c' else s.collector? k :=
    (Session.collector?_congr (s := s.setCollector j c') same k).trans
      (s.collector?_setCollector here c' k)
  obtain ⟨d, at_i, keptOnce⟩ := inHeap.keptBy
  have at_i : s.collector? i = some d := at_i
  refine Or.inl ⟨?_, ?_, ?_, rests⟩
  · by_cases this_one : i = j
    · refine ⟨c', (view i).trans (if_pos this_one), still this_one ?_⟩
      rw [this_one, here] at at_i
      cases at_i
      exact keptOnce
    · exact ⟨d, ((view i).trans (if_neg this_one)).trans at_i, keptOnce⟩
  · intro k e there stashed
    have there : m'.session.collector? k = some e := there
    rw [view] at there
    split at there
    · cases there
      exact inHeap.stash j c here (stash stashed)
    · exact inHeap.stash k e there stashed
  · intro k e there other q kept
    have there : m'.session.collector? k = some e := there
    rw [view] at there
    split at there
    · rename_i same
      cases there
      exact inHeap.alone j c here (same ▸ other) q (pending q kept)
    · exact inHeap.alone k e there other q kept

theorem retains (inHeap : KeptInHeap i f kind target ⟨s, hand, running, flight⟩) {j : Nat}
    {c d : Collector} (here : s.collector? j = some c) (retains : c.Retains d f)
    (same : m'.session.collectors = s.collectors.setIfInBounds j (some d)) (rests : f ∉ m'.flight) :
    Becomes i f kind target m' :=
  inHeap.set here same retains.stash (fun _ => retains.mem) (fun _ => retains.keptOnce) rests

/-- Collector `j` reclaims, and what is due runs next. -/
theorem reclaims (inHeap : KeptInHeap i f kind target ⟨s, hand, running, flight⟩) {j : Nat}
    {c : Collector}
    (here : s.collector? j = some c) {outcome : Heap Finalizer × List (Reclaimed Finalizer)}
    (reclaims : c.heap.Reclaims outcome)
    (same : m'.session.collectors = s.collectors.setIfInBounds j
    (some { c with heap := outcome.1 }))
    (flight : m'.flight = outcome.2.flatMap Reclaimed.due) : Becomes i f kind target m' := by
  have pending (q : ObjectRef) (kept : f ∈ outcome.1.pendingOf q) : f ∈ c.heap.pendingOf q := by
    obtain ⟨o, live⟩ := Heap.live_of_mem_pendingOf _ reclaims.sound kept
    rwa [(reclaims.survivor q o live).2] at kept
  have view := (Session.collector?_congr (s := s.setCollector j { c with heap := outcome.1 }) same
    i).trans (s.collector?_setCollector here _ i)
  by_cases this_one : i = j
  · obtain ⟨d, at_i, keptOnce⟩ := inHeap.keptBy
    have at_i : s.collector? i = some d := at_i
    rw [this_one, here] at at_i
    cases at_i
    rcases keptOnce.reclaim reclaims with ⟨still, rests⟩ | ⟨due, dead⟩
    · exact inHeap.set here same id pending (fun _ _ => still) (flight ▸ rests)
    · refine Or.inr (Or.inl ⟨flight ▸ due, ?_⟩)
      intro e there
      have there : m'.session.collector? i = some e := there
      rw [view, if_pos this_one] at there
      cases there
      exact dead
  · refine inHeap.set here same id pending (fun same => absurd same this_one) ?_
    intro due
    rw [flight] at due
    obtain ⟨q, _, kept⟩ := (reclaims.mem_due f).mp due
    exact inHeap.alone j c here (fun same => this_one same.symm) q kept

/-- Collector `j` is drained, and all that it kept runs next. -/
theorem drained (inHeap : KeptInHeap i f kind target ⟨s, hand, running, flight⟩) {j : Nat}
    {c : Collector} (here : s.collector? j = some c) (same : m'.session.collectors =
      s.collectors.setIfInBounds j (some { c with heap := c.heap.emptied }))
    (all : f ∈ m'.flight ↔ ∃ q, f ∈ c.heap.pendingOf q) : Becomes i f kind target m' := by
  have view := (Session.collector?_congr (s := s.setCollector j { c with heap := c.heap.emptied })
    same i).trans (s.collector?_setCollector here _ i)
  by_cases this_one : i = j
  · obtain ⟨d, at_i, keptOnce⟩ := inHeap.keptBy
    have at_i : s.collector? i = some d := at_i
    rw [this_one, here] at at_i
    cases at_i
    refine Or.inr (Or.inl ⟨all.mpr ⟨target, keptOnce.mem⟩, ?_⟩)
    intro e there
    rw [view, if_pos this_one] at there
    cases there
    simp [Heap.emptied, Heap.object?]
  · refine inHeap.set here same id ?_ (fun same => absurd same this_one) ?_
    · intro q kept
      rw [Heap.pendingOf_emptied] at kept
      cases kept
    · intro flies
      obtain ⟨q, kept⟩ := all.mp flies
      exact inHeap.alone j c here (fun same => this_one same.symm) q kept

theorem closed (inHeap : KeptInHeap i f kind target ⟨s, hand, running, flight⟩) {j : Nat}
    (view : ∀ k, m'.session.collector? k = if k = j then none else s.collector? k)
    (rests : f ∈ m'.flight → f ∈ flight) : Becomes i f kind target m' := by
  obtain ⟨c, here, keptOnce⟩ := inHeap.keptBy
  have before {k : Nat} {d : Collector} (there : m'.session.collector? k = some d) :
      s.collector? k = some d := by
    rw [view] at there
    split at there
    · cases there
    · exact there
  by_cases this_one : i = j
  · exact Or.inr (Or.inr ((view i).trans (if_pos this_one)))
  · refine Or.inl ⟨⟨c, ((view i).trans (if_neg this_one)).trans here, keptOnce⟩, ?_, ?_, ?_⟩
    · exact fun k d there => inHeap.stash k d (before there)
    · exact fun k d there => inHeap.alone k d (before there)
    · exact fun flies => inHeap.rests (rests flies)

end KeptInHeap

namespace Move
variable {t : Tag} {m m' : Moment}

theorem inHeap (sound : m.session.HeapsSound) (move : Move t m m') {i : Nat} {f : Finalizer}
    {kind : ObjectKind} {target : ObjectRef} (inHeap : KeptInHeap i f kind target m)
    (old : ¬ t.defines f)
    (other : ∀ h, f ≠ .endBinding m.session.cells.size h) :
    KeptInHeap.Becomes i f kind target m' := by
  obtain ⟨s, hand, running, flight⟩ := m
  cases move with
  | remark _ e _ => exact inHeap.congr rfl id
  | record _ d => exact inHeap.congr rfl id
  | initialized _ x => exact inHeap.congr rfl id
  | tornDown _ x =>
    refine inHeap.congr ?_ id
    unfold Session.recordTornDown
    split <;> rfl
  | freshRuntime _ => exact inHeap.congr rfl id
  | freshHandle _ => exact inHeap.congr rfl id
  | newPinSet _ => exact inHeap.congr rfl id
  | modifyPins _ pins g => exact inHeap.congr rfl id
  | newHeap _ config =>
    obtain ⟨c, here, keptOnce⟩ := inHeap.keptBy
    have here : s.collector? i = some c := here
    have inside := s.lt_size_of_collector? here
    refine Or.inl ⟨⟨c, ?_, keptOnce⟩, ?_, ?_, inHeap.rests⟩
    · exact (s.collector?_newHeap config i).trans ((if_neg (Nat.ne_of_lt inside)).trans here)
    · intro j d there
      have there : (s.newHeap config).1.collector? j = some d := there
      rw [s.collector?_newHeap] at there
      split at there
      · cases there
        exact List.not_mem_nil
      · exact inHeap.stash j d there
    · intro j d there elsewhere q kept
      have there : (s.newHeap config).1.collector? j = some d := there
      rw [s.collector?_newHeap] at there
      split at there
      · cases there
        rw [Heap.pendingOf_of_dead _ .empty (by simp [Heap.object?])] at kept
        cases kept
      · exact inHeap.alone j d there elsewhere q kept
  | newTrace _ => exact inHeap.congr rfl id
  | newMap _ => exact inHeap.congr rfl id
  | script _ here heap stash =>
    exact inHeap.retains here (.of_heap heap fun stashed => stash ▸ stashed) rfl inHeap.rests
  | @advance _ j c here =>
    exact inHeap.retains (d := c.advance) here (.of_heap rfl id) rfl inHeap.rests
  | alloc _ here _ allocated =>
    exact inHeap.retains here (.alloc (sound _ _ here) allocated) rfl inHeap.rests
  | upkeep _ here upkeep => exact inHeap.retains here (.upkeep upkeep) rfl inHeap.rests
  | reclaim _ here idle calm reclamation =>
    refine inHeap.reclaims here (Heap.reclaims (sound _ _ here) reclamation) ?_ rfl
    dsimp only
    rw [Session.emitAll_eq]
    rfl
  | @receive _ j c c' r g ran a here idle calm proper received =>
    have apart : f ≠ g := fun same => old same
    refine inHeap.retains here (.receives received apart) rfl ?_
    intro flies
    split at flies
    · exact apart (List.mem_singleton.mp flies)
    · cases flies
  | @unstash _ j c position g here idle calm stashed =>
    have apart : f ≠ g := by
      intro same
      exact inHeap.stash j c here (same ▸ List.mem_of_getElem? stashed)
    refine inHeap.retains (d := { c with stash := c.stash.eraseIdx position }) here
      (.of_heap rfl List.mem_of_mem_eraseIdx) rfl ?_
    intro flies
    exact apart (List.mem_singleton.mp flies)
  | drain _ here idle calm all => exact inHeap.drained here rfl (Heap.mem_drained all f)
  | @close _ j c here calm =>
    refine inHeap.closed (j := j) ?_ id
    intro k
    change (s.collectors.setIfInBounds j none)[k]?.join = _
    rw [Array.getElem?_setIfInBounds]
    by_cases same : j = k
    · rw [if_pos same, if_pos same.symm]
      split <;> rfl
    · rw [if_neg same, if_neg fun e => same e.symm]
      rfl
  | begin _ idle flies =>
    have flies : flight = _ := flies
    exact inHeap.congr rfl fun rest => flies ▸ List.mem_cons_of_mem _ rest
  | report _ idle flies =>
    have flies : flight = _ := flies
    exact inHeap.congr rfl fun rest => flies ▸ List.mem_cons_of_mem _ rest
  | fire _ here idle flies =>
    have flies : flight = _ := flies
    exact inHeap.congr ((s.logRun _).sameButBindings_endBinding _ _ _).collectors fun rest =>
      flies ▸ List.mem_cons_of_mem _ rest
  | skip _ runs => exact inHeap.congr rfl id
  | actPin _ here runs => exact inHeap.congr rfl id
  | actUnpin _ here runs => exact inHeap.congr rfl id
  | disarm _ here held => exact inHeap.congr (s.collectors_disarm _ _) id
  | discard _ held => exact inHeap.congr (s.collectors_discard _) id
  | clear _ here held binding bound dead =>
    exact inHeap.congr (s.sameButBindings_clearDead _ _ _).collectors id
  | empty _ here unbound => exact inHeap.congr rfl id
  | vacate _ here unbound => exact inHeap.congr rfl id
  | dropHand _ here unbound => exact inHeap.congr rfl id
  | thin _ here unbound => exact inHeap.congr rfl id
  | prune _ here => exact inHeap.congr (s.collectors_discardAll _) id
  | dropMap _ here => exact inHeap.congr (s.collectors_discardAll _) id
  | newRef _ => exact inHeap.congr rfl id
  | take _ free => exact inHeap.congr rfl id
  | @attach _ j c c' p ref x ran a here held loose unbound calm received =>
    refine inHeap.retains here (.receives received (other ref.id))
      (Moment.put_same _ _ _).collectors ?_
    intro flies
    rw [(Moment.put_same _ _ _).flight] at flies
    exact inHeap.rests flies
  | enlist _ here => exact inHeap.congr rfl id
  | place _ here map vacant => exact inHeap.congr rfl id

/-- A finalizer that runs next runs next until it runs. -/
theorem flies (move : Move t m m') {f : Finalizer} (flies : f ∈ m.flight) :
    f ∈ m'.flight ∨ m'.session.HasDone f := by
  obtain ⟨s, hand, running, flight⟩ := m
  have flies : f ∈ flight := flies
  have not_calm (calm : flight = []) : f ∈ m'.flight ∨ m'.session.HasDone f := by
    rw [calm] at flies
    cases flies
  cases move with
  | reclaim _ here idle calm reclamation => exact not_calm calm
  | receive _ here idle calm proper received => exact not_calm calm
  | unstash _ here idle calm stashed => exact not_calm calm
  | drain _ here idle calm all => exact not_calm calm
  | begin _ idle queue =>
    have queue : flight = _ := queue
    rw [queue] at flies
    rcases List.mem_cons.mp flies with first | rest
    · rw [first]
      exact Or.inr trivial
    · exact Or.inl rest
  | @report _ x key handle rest idle queue =>
    have queue : flight = _ := queue
    rw [queue] at flies
    rcases List.mem_cons.mp flies with first | rest
    · rw [first]
      right
      intro map there
      have there : ((s.logRun (.report x key handle)).modifyMap x (·.report key handle)).map? x =
          some map := there
      rw [Session.map?_modifyMap, if_pos rfl] at there
      obtain ⟨before, _, same⟩ := Option.map_eq_some_iff.mp there
      rw [← same]
      exact List.mem_append_right _ List.mem_cons_self
    · exact Or.inl rest
  | @fire _ i c cell handle rest here idle queue =>
    have queue : flight = _ := queue
    rw [queue] at flies
    rcases List.mem_cons.mp flies with first | rest
    · rw [first]
      right
      change (((s.logRun (.endBinding cell handle)).endBinding c.heap.pins cell handle).cell
        cell).isBound = false
      rw [Session.cell_endBinding, if_pos rfl]
      exact Cell.isBound_fire _
    · exact Or.inl rest
  | attach _ here held loose unbound calm received =>
    rw [(Moment.put_same _ _ _).flight]
    exact Or.inl flies
  | _ => exact Or.inl flies

end Move

end WeakRefs
