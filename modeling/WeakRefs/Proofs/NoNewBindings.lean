import WeakRefs.Proofs.Arrival
import WeakRefs.Proofs.Pending

/-!
# Moves that make no new binding

Only five moves bring anything new: a new reference, its arrival in a place, and a binding. By all
the others no cell becomes bound, and no finalizer of a binding begins to wait.
-/

namespace WeakRefs

/-- A step in which bindings end at most, and no finalizer begins to wait but those in `new`. -/
structure NoNewBindings (new : Finalizer → Prop) (m m' : Moment) : Prop where
  held : ∀ p a, m'.held p = some a →
    ∃ b, m.held p = some b ∧ b.id = a.id ∧ (a.binding = none ∨ a.binding = b.binding)
  stays : ∀ c t p b, m'.session.cell c = .bound t → m.held p = some b → b.cell? = some c →
    m'.held p = some b
  bound : ∀ c t, m'.session.cell c = .bound t → m.session.cell c = .bound t
  size : m'.session.cells.size = m.session.cells.size
  handles : m.session.handles ≤ m'.session.handles
  awaits : ∀ f, m'.Awaits f → m.Awaits f ∨ new f
  runs : ∀ c h, .endBinding c h ∈ m'.session.runs → .endBinding c h ∈ m.session.runs ∨
    (m.Awaits (.endBinding c h) ∧ (m'.session.cell c).isBound = false)

namespace Tag

/-- A move that brings a reference or a binding. -/
def brings : Tag → Bool
  | bind _ _ _ | arrive _ => true
  | _ => false

/-- The finalizer that a move defines, other than that of a binding. -/
def defines : Tag → Finalizer → Prop
  | define f, g => g = f
  | _, _ => False

end Tag

namespace Session
variable {s : Session}

theorem entry?_setMap {x : Nat} {map : Option WeakValueMap} (inside : x < s.maps.size) (y : Nat)
    (key : String) : Session.entry? (s.setMap x map) y key =
      if x = y then map.bind fun map => map.entries.get? key else s.entry? y key := by
  unfold entry?
  rw [map?_setMap]
  by_cases same : x = y
  · rw [if_pos ⟨same, inside⟩, if_pos same]
  · rw [if_neg fun both => same both.1, if_neg same]

theorem keeps_setCollector {i : Nat} {c c' : Collector} {f : Finalizer}
    (here : s.collector? i = some c) (kept : (s.setCollector i c').Keeps f) :
    s.Keeps f ∨ f ∈ c'.stash ∨ ∃ q, f ∈ c'.heap.pendingOf q := by
  obtain ⟨j, d, there, kept⟩ := kept
  rw [s.collector?_setCollector here] at there
  split at there
  · cases there
    exact Or.inr kept
  · exact Or.inl ⟨j, d, there, kept⟩

theorem keeps_congr {s s' : Session} (same : s'.collectors = s.collectors) (f : Finalizer) :
    s'.Keeps f ↔ s.Keeps f := by
  unfold Keeps collector?
  rw [same]

end Session

namespace NoNewBindings
variable {new : Finalizer → Prop} {m m' m'' : Moment}

/-- Whoever has a cell has had it before. -/
theorem cell (noNew : NoNewBindings new m m') {p : Place} {a : WeakReference} {c : Nat}
    (here : m'.held p = some a) (mine : a.cell? = some c) :
    ∃ b, m.held p = some b ∧ b.cell? = some c := by
  obtain ⟨b, before, _, binding⟩ := noNew.held p a here
  refine ⟨b, before, ?_⟩
  rcases binding with empty | same
  · rw [WeakReference.cell?, empty] at mine
    cases mine
  · rwa [WeakReference.cell?, ← same]

theorem trans (first : NoNewBindings new m m') (next : NoNewBindings new m' m'')
    (calm : ∀ c h, ¬ new (.endBinding c h)) : NoNewBindings new m m'' where
  held p a there := by
    obtain ⟨b, there', id, binding⟩ := next.held p a there
    obtain ⟨c, before, id', binding'⟩ := first.held p b there'
    refine ⟨c, before, id'.trans id, ?_⟩
    rcases binding with empty | same
    · exact Or.inl empty
    · rcases binding' with empty | same'
      · exact Or.inl (same.trans empty)
      · exact Or.inr (same.trans same')
  stays c t p b bound before own :=
    next.stays c t p b bound (first.stays c t p b (next.bound c t bound) before own) own
  bound c t bound := first.bound c t (next.bound c t bound)
  size := next.size.trans first.size
  handles := Nat.le_trans first.handles next.handles
  awaits f waiting := by
    rcases next.awaits f waiting with waiting | fresh
    · exact first.awaits f waiting
    · exact Or.inr fresh
  runs c h ran := by
    rcases next.runs c h ran with ran | ⟨waiting, unbound⟩
    · rcases first.runs c h ran with ran | ⟨waiting, unbound⟩
      · exact Or.inl ran
      · refine Or.inr ⟨waiting, ?_⟩
        cases state : (m''.session.cell c).isBound with
        | false => rfl
        | true =>
          obtain ⟨t, bound⟩ := (Cell.isBound_iff _).mp state
          rw [next.bound c t bound] at unbound
          cases unbound
    · rcases first.awaits _ waiting with waiting | fresh
      · exact Or.inr ⟨waiting, unbound⟩
      · exact absurd fresh (calm c h)

theorem quiet (held : ∀ p, m'.held p = m.held p) (cells : m'.session.cells = m.session.cells)
    (handles : m.session.handles ≤ m'.session.handles)
    (awaits : ∀ f, m'.Awaits f → m.Awaits f ∨ new f)
    (runs : ∀ c h, .endBinding c h ∈ m'.session.runs → .endBinding c h ∈ m.session.runs) :
    NoNewBindings new m m' where
  held p a there := ⟨a, (held p).symm.trans there, rfl, Or.inr rfl⟩
  stays _ _ p _ _ before _ := (held p).trans before
  bound c _ bound := (Session.cell_congr cells c).symm.trans bound
  size := congrArg Array.size cells
  handles := handles
  awaits := awaits
  runs c h ran := Or.inl (runs c h ran)

/-- References leave or are emptied that are not bound. -/
theorem leave (held : ∀ p a, m'.held p = some a →
      ∃ b, m.held p = some b ∧ b.id = a.id ∧ (a.binding = none ∨ a.binding = b.binding))
    (stays : ∀ p b, m.held p = some b → m.session.isBound b = true → m'.held p = some b)
    (same : m'.session.cells = m.session.cells ∧ m'.session.handles = m.session.handles ∧
      m'.session.collectors = m.session.collectors ∧ m'.session.runs = m.session.runs ∧
      m'.flight = m.flight) : NoNewBindings new m m' where
  held := held
  stays c _ p b bound before own := by
    apply stays p b before
    rw [Session.isBound_iff]
    refine ⟨c, own, ?_⟩
    rw [← Session.cell_congr same.1 c, bound]
    rfl
  bound c _ bound := (Session.cell_congr same.1 c).symm.trans bound
  size := congrArg Array.size same.1
  handles := Nat.le_of_eq same.2.1.symm
  awaits f waiting := by
    left
    rcases waiting with kept | flying
    · exact Or.inl ((Session.keeps_congr same.2.2.1 _).mp kept)
    · exact Or.inr (same.2.2.2.2 ▸ flying)
  runs c h ran := Or.inl (same.2.2.2.1 ▸ ran)

theorem ending {s s' : Session} {hand : Option WeakReference} {running : List Action}
    {flight : List Finalizer} (same : Session.SameButBindings s s')
    (size : s'.cells.size = s.cells.size)
    (bound : ∀ c t, s'.cell c = .bound t → s.cell c = .bound t) :
    NoNewBindings new ⟨s, hand, running, flight⟩ ⟨s', hand, running, flight⟩ where
  held p a there := by
    have before := Moment.held_congr (m := ⟨s, hand, running, flight⟩)
      (n := ⟨s', hand, running, flight⟩) same.refs same.maps rfl p
    exact ⟨a, before.symm.trans there, rfl, Or.inr rfl⟩
  stays _ _ p _ _ before _ :=
    (Moment.held_congr (m := ⟨s, hand, running, flight⟩) (n := ⟨s', hand, running, flight⟩)
      same.refs same.maps rfl p).trans before
  bound := bound
  size := size
  handles := Nat.le_of_eq same.handles.symm
  awaits f waiting := by
    left
    rcases waiting with kept | flying
    · exact Or.inl ((Session.keeps_congr same.collectors _).mp kept)
    · exact Or.inr flying
  runs c h ran := Or.inl (same.runs ▸ ran)

/-- Only what no reference, cell or collector shows changes. -/
theorem unseen {s s' : Session} {hand : Option WeakReference} {running running' : List Action}
    {flight : List Finalizer} (refs : s'.refs = s.refs) (maps : s'.maps = s.maps)
    (cells : s'.cells = s.cells) (collectors : s'.collectors = s.collectors)
    (handles : s.handles ≤ s'.handles) (runs : s'.runs = s.runs) :
    NoNewBindings new ⟨s, hand, running, flight⟩ ⟨s', hand, running', flight⟩ := by
  refine quiet (Moment.held_congr refs maps rfl) cells handles ?_ ?_
  · intro f waiting
    left
    rcases waiting with kept | flying
    · exact Or.inl ((Session.keeps_congr collectors _).mp kept)
    · exact Or.inr flying
  · intro c h ran
    exact runs ▸ ran

/-- A collector changes, and the finalizers of bindings that wait now have waited before. -/
theorem collecting {s : Session} {hand : Option WeakReference} {running : List Action}
    {flight flight' : List Finalizer} {i : Nat} {c c' : Collector} (events : List Event)
    (here : s.collector? i = some c)
    (awaits : ∀ f, (f ∈ c'.stash ∨ (∃ q, f ∈ c'.heap.pendingOf q) ∨ f ∈ flight') →
      (f ∈ c.stash ∨ (∃ q, f ∈ c.heap.pendingOf q) ∨ f ∈ flight) ∨ new f) :
    NoNewBindings new ⟨s, hand, running, flight⟩
      ⟨(s.setCollector i c').emitAll events, hand, running, flight'⟩ := by
  have told : (s.setCollector i c').emitAll events = { s.setCollector i c' with
      journal := s.journal ++ events.toArray } := Session.emitAll_eq _ events
  rw [told]
  have before {f : Finalizer} (kept : f ∈ c.stash ∨ ∃ q, f ∈ c.heap.pendingOf q) : s.Keeps f :=
    ⟨i, c, here, kept⟩
  refine quiet (Moment.held_congr rfl rfl rfl) rfl (Nat.le_refl _) ?_ fun _ _ ran => ran
  intro f waiting
  have now : s.Keeps f ∨ f ∈ c'.stash ∨ (∃ q, f ∈ c'.heap.pendingOf q) ∨ f ∈ flight' := by
    rcases waiting with kept | flying
    · rcases Session.keeps_setCollector here kept with kept | stashed | pending
      · exact Or.inl kept
      · exact Or.inr (Or.inl stashed)
      · exact Or.inr (Or.inr (Or.inl pending))
    · exact Or.inr (Or.inr (Or.inr flying))
  rcases now with kept | waits
  · exact Or.inl (Or.inl kept)
  · rcases awaits f waits with (stashed | pending | flying) | fresh
    · exact Or.inl (Or.inl (before (Or.inl stashed)))
    · exact Or.inl (Or.inl (before (Or.inr pending)))
    · exact Or.inl (Or.inr flying)
    · exact Or.inr fresh

/-- A finalizer fires its cell, for which it has waited. -/
theorem fire {s : Session} {hand : Option WeakReference} {running : List Action} {roots cell : Nat}
    {handle : HandleId} {rest : List Finalizer} :
    NoNewBindings new ⟨s, hand, running, .endBinding cell handle :: rest⟩
      ⟨(s.logRun (.endBinding cell handle)).endBinding roots cell handle, hand, running, rest⟩ := by
  have same := (s.logRun (.endBinding cell handle)).sameButBindings_endBinding roots cell handle
  have held (p : Place) := Moment.held_congr
    (m := ⟨s, hand, running, .endBinding cell handle :: rest⟩)
    (n := ⟨(s.logRun (.endBinding cell handle)).endBinding roots cell handle, hand, running, rest⟩)
    same.refs same.maps rfl p
  constructor
  · intro p a there
    exact ⟨a, (held p).symm.trans there, rfl, Or.inr rfl⟩
  · intro _ _ p b _ before _
    exact (held p).trans before
  · intro c t bound
    rw [Session.cell_endBinding] at bound
    split at bound
    · have fired := ((s.logRun (.endBinding cell handle)).cell cell).isBound_fire
      rw [bound] at fired
      cases fired
    · exact bound
  · exact (s.logRun _).size_cells_endBinding roots cell handle
  · exact Nat.le_of_eq same.handles.symm
  · intro f waiting
    left
    rcases waiting with kept | flying
    · exact Or.inl ((Session.keeps_congr same.collectors _).mp kept)
    · exact Or.inr (List.mem_cons_of_mem _ flying)
  · intro c h ran
    rw [same.runs] at ran
    rcases Array.mem_push.mp ran with ran | now
    · exact Or.inl ran
    · cases now
      refine Or.inr ⟨Or.inr List.mem_cons_self, ?_⟩
      rw [Session.cell_endBinding, if_pos rfl]
      exact Cell.isBound_fire _

section Leaving
variable {s : Session} {hand : Option WeakReference} {running : List Action}
variable {flight : List Finalizer}

theorem setRef {r : Nat} {ref : WeakReference} {ref' : Option WeakReference}
    (here : s.ref? r = some ref) (unbound : s.isBound ref = false)
    (emptied : ∀ a, ref' = some a → a.id = ref.id ∧ a.binding = none) :
    NoNewBindings new ⟨s, hand, running, flight⟩ ⟨s.setRef r ref', hand, running, flight⟩ := by
  have inside := s.lt_size_of_ref? here
  refine leave ?_ ?_ ⟨rfl, rfl, rfl, rfl, rfl⟩
  · intro p a there
    cases p with
    | ref q =>
      change (s.setRef r ref').ref? q = some a at there
      rw [s.ref?_setRef] at there
      split at there
      · rename_i same
        obtain ⟨id, binding⟩ := emptied a there
        exact ⟨ref, same.1 ▸ here, id.symm, Or.inl binding⟩
      · exact ⟨a, there, rfl, Or.inr rfl⟩
    | entry x key => exact ⟨a, there, rfl, Or.inr rfl⟩
    | hand => exact ⟨a, there, rfl, Or.inr rfl⟩
  · intro p b before bound
    cases p with
    | ref q =>
      change (s.setRef r ref').ref? q = some b
      rw [s.ref?_setRef, if_neg]
      · exact before
      · rintro ⟨same, _⟩
        have there : s.ref? q = some b := before
        rw [← same, here] at there
        cases there
        rw [unbound] at bound
        cases bound
    | entry x key => exact before
    | hand => exact before

/-- The entries of one map change: some that are not bound leave. -/
theorem entries {s' : Session} {x : Nat} (refs : s'.refs = s.refs)
    (same : s'.cells = s.cells ∧ s'.handles = s.handles ∧ s'.collectors = s.collectors ∧
      s'.runs = s.runs)
    (others : ∀ y key, y ≠ x → s'.entry? y key = s.entry? y key)
    (left : ∀ key a, s'.entry? x key = some a → s.entry? x key = some a)
    (stays : ∀ key b, s.entry? x key = some b → s.isBound b = true → s'.entry? x key = some b) :
    NoNewBindings new ⟨s, hand, running, flight⟩ ⟨s', hand, running, flight⟩ := by
  have free (r : Nat) : s'.ref? r = s.ref? r := by
    unfold Session.ref?
    rw [refs]
  refine leave ?_ ?_ ⟨same.1, same.2.1, same.2.2.1, same.2.2.2, rfl⟩
  · intro p a there
    refine ⟨a, ?_, rfl, Or.inr rfl⟩
    cases p with
    | ref r => exact (free r).symm.trans there
    | entry y key =>
      by_cases this_map : y = x
      · subst this_map
        exact left key a there
      · exact (others y key this_map).symm.trans there
    | hand => exact there
  · intro p b before bound
    cases p with
    | ref r => exact (free r).trans before
    | entry y key =>
      by_cases this_map : y = x
      · subst this_map
        exact stays key b before bound
      · exact (others y key this_map).trans before
    | hand => exact before

theorem discardAll (rs : List WeakReference) : NoNewBindings new ⟨s, hand, running, flight⟩
    ⟨s.discardAll rs, hand, running, flight⟩ := by
  exact ending (s.sameButBindings_discardAll rs) (s.size_cells_discardAll rs)
    fun _ _ bound => s.bound_of_discardAll bound

/-- A map is replaced by one that lacks some entries which are not bound, or leaves. -/
theorem setMap {x : Nat} {map : WeakValueMap} {map' : Option WeakValueMap}
    (here : s.map? x = some map)
    (left : ∀ key a, (map'.bind fun map => map.entries.get? key) = some a →
      map.entries.get? key = some a)
    (stays : ∀ key b, map.entries.get? key = some b → s.isBound b = true →
      (map'.bind fun map => map.entries.get? key) = some b) :
    NoNewBindings new ⟨s, hand, running, flight⟩ ⟨s.setMap x map', hand, running, flight⟩ := by
  have inside := s.lt_size_of_map? here
  have before (key : String) : s.entry? x key = map.entries.get? key := by
    unfold Session.entry?
    rw [here]
    rfl
  have now (key : String) : Session.entry? (s.setMap x map') x key =
      map'.bind fun map => map.entries.get? key := by
    rw [Session.entry?_setMap inside, if_pos rfl]
  refine entries rfl ⟨rfl, rfl, rfl, rfl⟩ (x := x) ?_ ?_ ?_
  · intro y key other
    rw [Session.entry?_setMap inside, if_neg fun same => other same.symm]
  · intro key a there
    rw [now] at there
    rw [before]
    exact left key a there
  · intro key b there bound
    rw [before] at there
    rw [now]
    exact stays key b there bound

end Leaving

end NoNewBindings

/-- All heaps of a session are sound. -/
def Session.HeapsSound (s : Session) : Prop := ∀ i c, s.collector? i = some c → c.heap.Sound

namespace Session
variable (s : Session)

theorem collector?_newHeap (config : HeapConfig) (j : Nat) :
    (s.newHeap config).1.collector? j = if j = s.collectors.size then
      some { heap := { runtime := ⟨s.runtimes + 1⟩, config, pins := s.pinSets.size } }
    else s.collector? j := by
  change (s.collectors.push _)[j]?.join = _
  rw [Array.getElem?_push]
  split <;> rfl

theorem ref?_size : s.ref? s.refs.size = none := by
  simp [ref?]

theorem entry?_addMap (x : Nat) (key : String) : s.addMap.entry? x key = s.entry? x key := by
  unfold entry? map? addMap
  rw [Array.getElem?_push]
  split
  · rename_i same
    simp [same]
  · rfl

end Session

/-- A collector that receives a finalizer keeps it and what it kept before, and no other. -/
theorem Collector.Receives.kept_cases {c c' : Collector} {r : ObjectRef} {f g : Finalizer}
    {ran : Bool} {a : Affiliation} (received : c.Receives r f c' ran a)
    (keeps : g ∈ c'.stash ∨ ∃ q, g ∈ c'.heap.pendingOf q) :
    g = f ∨ g ∈ c.stash ∨ ∃ q, g ∈ c.heap.pendingOf q := by
  cases received with
  | kept kept =>
    rcases keeps with stashed | ⟨q, pending⟩
    · exact Or.inr (Or.inl stashed)
    · have added := (Heap.pendingOf_define kept q).mem_iff.mp pending
      rcases List.mem_append.mp added with pending | same
      · exact Or.inr (Or.inr ⟨q, pending⟩)
      · split at same
        · exact Or.inl (List.mem_singleton.mp same)
        · cases same
  | due dead => exact Or.inr keeps
  | now a scripted => exact Or.inr keeps
  | stashed a scripted =>
    rcases keeps with stashed | pending
    · rcases List.mem_append.mp stashed with stashed | same
      · exact Or.inr (Or.inl stashed)
      · exact Or.inl (List.mem_singleton.mp same)
    · exact Or.inr (Or.inr pending)
  | lost a scripted => exact Or.inr keeps

/-- A binding that arrives brings its own finalizer and no other. -/
theorem Attaches.awaits_cases {i : Nat} {target : ObjectRef} {p : Place} {ref : WeakReference}
    {b : Binding} {c c' : Collector} {ran : Bool} {m m' : Moment}
    (attaches : Attaches i target p ref b c c' ran m m') {f : Finalizer} (waiting : m'.Awaits f) :
    f = .endBinding b.cell ref.id ∨ m.Awaits f := by
  rcases waiting with kept | flying
  · have kept := (Session.keeps_congr (s := m.session.setCollector i c')
      attaches.same.collectors f).mp kept
    rcases Session.keeps_setCollector attaches.here kept with kept | keeps
    · exact Or.inr (Or.inl kept)
    · rcases attaches.received.kept_cases keeps with same | kept
      · exact Or.inl same
      · exact Or.inr (Or.inl ⟨i, c, attaches.here, kept⟩)
  · rw [attaches.same.flight] at flying
    exact Or.inr (Or.inr flying)

namespace NoNewBindings
variable {new : Finalizer → Prop} {s : Session} {hand : Option WeakReference}
variable {running : List Action} {flight : List Finalizer} {i x : Nat} {c : Collector}
variable {map : WeakValueMap}

section Making

theorem newHeap (config : HeapConfig) : NoNewBindings new ⟨s, hand, running, flight⟩
    ⟨(s.newHeap config).1, hand, running, flight⟩ := by
  refine quiet (Moment.held_congr rfl rfl rfl) rfl (Nat.le_refl _) ?_ fun _ _ ran => ran
  intro f waiting
  left
  rcases waiting with ⟨j, d, there, kept⟩ | flying
  · rw [s.collector?_newHeap] at there
    split at there
    · cases there
      rcases kept with stashed | ⟨q, pending⟩
      · cases stashed
      · rw [Heap.pendingOf_of_dead _ .empty (by simp [Heap.object?])] at pending
        cases pending
    · exact Or.inl ⟨j, d, there, kept⟩
  · exact Or.inr flying

theorem newTrace : NoNewBindings new ⟨s, hand, running, flight⟩
    ⟨s.addRef none, hand, running, flight⟩ := by
  refine quiet ?_ rfl (Nat.le_refl _) (fun _ waits => Or.inl waits) fun _ _ ran => ran
  intro p
  cases p with
  | ref q =>
    change (s.addRef none).ref? q = s.ref? q
    rw [s.ref?_addRef]
    split
    · rename_i same
      rw [same, s.ref?_size]
    · rfl
  | entry x key => rfl
  | hand => rfl

theorem newMap : NoNewBindings new ⟨s, hand, running, flight⟩ ⟨s.addMap, hand, running,
    flight⟩ := by
  refine quiet ?_ rfl (Nat.le_refl _) (fun _ waits => Or.inl waits) fun _ _ ran => ran
  intro p
  cases p with
  | ref q => rfl
  | entry x key => exact s.entry?_addMap x key
  | hand => rfl

end Making

section Collectors
variable (here : s.collector? i = some c)
include here

theorem reclaim {outcome : Heap Finalizer × List (Reclaimed Finalizer)}
    (reclaims : c.heap.Reclaims outcome) : NoNewBindings new ⟨s, hand, running, flight⟩
      ⟨(s.setCollector i { c with heap := outcome.1 }).emitAll
        (Session.reclaimedEvents outcome.2), hand, running, outcome.2.flatMap Reclaimed.due⟩ := by
  refine collecting _ here ?_
  intro f waits
  left
  rcases waits with stashed | ⟨q, pending⟩ | flying
  · exact Or.inl stashed
  · obtain ⟨o, live⟩ := Heap.live_of_mem_pendingOf _ reclaims.sound pending
    rw [(reclaims.survivor q o live).2] at pending
    exact Or.inr (Or.inl ⟨q, pending⟩)
  · obtain ⟨q, _, pending⟩ := (reclaims.mem_due _).mp flying
    exact Or.inr (Or.inl ⟨q, pending⟩)

theorem receive {c' : Collector} {r : ObjectRef} {f : Finalizer} {ran : Bool} {a : Affiliation}
    (received : c.Receives r f c' ran a) (fresh : new f) :
    NoNewBindings new ⟨s, hand, running, flight⟩
      ⟨s.setCollector i c', hand, running, if ran then [f] else []⟩ := by
  refine collecting [] here ?_
  intro g waits
  have before (keeps : g ∈ c'.stash ∨ ∃ q, g ∈ c'.heap.pendingOf q) :
      (g ∈ c.stash ∨ (∃ q, g ∈ c.heap.pendingOf q) ∨ g ∈ flight) ∨ new g := by
    rcases received.kept_cases keeps with same | stashed | pending
    · exact Or.inr (same ▸ fresh)
    · exact Or.inl (Or.inl stashed)
    · exact Or.inl (Or.inr (Or.inl pending))
  rcases waits with stashed | pending | flying
  · exact before (Or.inl stashed)
  · exact before (Or.inr pending)
  · split at flying
    · exact Or.inr (List.mem_singleton.mp flying ▸ fresh)
    · cases flying

theorem unstash {position : Nat} {f : Finalizer} (stashed : c.stash[position]? = some f) :
    NoNewBindings new ⟨s, hand, running, flight⟩
      ⟨s.setCollector i { c with stash := c.stash.eraseIdx position }, hand, running, [f]⟩ := by
  refine collecting [] here ?_
  intro g waits
  left
  rcases waits with still | pending | flying
  · exact Or.inl (List.mem_of_mem_eraseIdx still)
  · exact Or.inr (Or.inl pending)
  · rw [List.mem_singleton.mp flying]
    exact Or.inl (List.mem_of_getElem? stashed)

theorem drain {groups : List (ObjectRef × List Finalizer)}
    (all : groups.Perm c.heap.sideTable.pairs) : NoNewBindings new ⟨s, hand, running, flight⟩
      ⟨s.setCollector i { c with heap := c.heap.emptied }, hand, running,
        c.heap.pendingDirect ++ groups.flatMap Prod.snd⟩ := by
  refine collecting [] here ?_
  intro f waits
  left
  rcases waits with still | ⟨q, pending⟩ | flying
  · exact Or.inl still
  · rw [Heap.pendingOf_emptied] at pending
    cases pending
  · exact Or.inr (Or.inl ((Heap.mem_drained all _).mp flying))

omit here in
theorem close (pins : Nat) : NoNewBindings new ⟨s, hand, running, flight⟩
    ⟨{ s.clearPins pins with collectors := s.collectors.setIfInBounds i none }, hand, running,
      flight⟩ := by
  refine quiet (Moment.held_congr rfl rfl rfl) rfl (Nat.le_refl _) ?_ fun _ _ ran => ran
  intro f waiting
  left
  rcases waiting with ⟨j, d, there, kept⟩ | flying
  · refine Or.inl ⟨j, d, ?_, kept⟩
    have there : (s.collectors.setIfInBounds i none)[j]?.join = some d := there
    rw [Array.getElem?_setIfInBounds] at there
    split at there
    · split at there <;> cases there
    · exact there
  · exact Or.inr flying

end Collectors

/-- A finalizer begins to run that is not a binding's. -/
theorem next {s' : Session} {running' : List Action} {f : Finalizer} {rest : List Finalizer}
    (held : ∀ p, Moment.held ⟨s', hand, running', rest⟩ p =
      Moment.held ⟨s, hand, running, f :: rest⟩ p)
    (cells : s'.cells = s.cells) (handles : s'.handles = s.handles)
    (collectors : s'.collectors = s.collectors) (runs : s'.runs = s.runs.push f)
    (other : ∀ d h, f ≠ .endBinding d h) :
    NoNewBindings new ⟨s, hand, running, f :: rest⟩ ⟨s', hand, running', rest⟩ := by
  refine quiet held cells (Nat.le_of_eq handles.symm) ?_ ?_
  · intro g waiting
    left
    rcases waiting with kept | flying
    · exact Or.inl ((Session.keeps_congr collectors _).mp kept)
    · exact Or.inr (List.mem_cons_of_mem _ flying)
  · intro d h ran
    have ran : .endBinding d h ∈ s'.runs := ran
    rw [runs] at ran
    rcases Array.mem_push.mp ran with ran | same
    · exact ran
    · exact absurd same.symm (other d h)

section Ending

theorem disarm (roots : Nat) (ref : WeakReference) : NoNewBindings new ⟨s, hand, running, flight⟩
    ⟨s.disarm roots ref, hand, running, flight⟩ := by
  refine ending (s.sameButBindings_disarm _ ref) (s.size_cells_disarm _ ref) ?_
  intro d target bound
  rw [s.cell_disarm] at bound
  split at bound
  · cases bound
  · exact bound

theorem clear (roots cell : Nat) (handle : HandleId) (e : Event) :
    NoNewBindings new ⟨s, hand, running, flight⟩
      ⟨(s.clearDead roots cell handle).emit e, hand, running, flight⟩ := by
  have cleared := s.sameButBindings_clearDead roots cell handle
  refine ending (cleared.trans ⟨rfl, rfl, rfl, rfl, rfl, rfl, rfl, rfl⟩)
    (s.size_cells_clearDead _ _ _) ?_
  intro d target bound
  rw [Session.cell_emit, s.cell_clearDead] at bound
  split at bound
  · have unbound := (s.cell cell).isBound_clear
    rw [bound] at unbound
    cases unbound
  · exact bound

theorem dropHand {ref : WeakReference} (unbound : s.isBound ref = false) :
    NoNewBindings new ⟨s, some ref, running, flight⟩ ⟨s, none, running, flight⟩ := by
  refine leave ?_ ?_ ⟨rfl, rfl, rfl, rfl, rfl⟩
  · intro p a there
    cases p with
    | ref r => exact ⟨a, there, rfl, Or.inr rfl⟩
    | entry x key => exact ⟨a, there, rfl, Or.inr rfl⟩
    | hand => cases there
  · intro p b before bound
    cases p with
    | ref r => exact before
    | entry x key => exact before
    | hand =>
      cases before
      have bound : s.isBound ref = true := bound
      rw [unbound] at bound
      cases bound

variable (here : s.map? x = some map)
include here

theorem thin {keep : String → WeakReference → Bool} (unbound : ∀ key ref,
      map.entries.get? key = some ref → keep key ref = false → s.isBound ref = false) :
    NoNewBindings new ⟨s, hand, running, flight⟩
      ⟨s.modifyEntries x (·.filter keep), hand, running, flight⟩ := by
  have entries : s.entries? x = some map.entries := by
    unfold Session.entries?
    rw [here]
    rfl
  have now (key : String) : Session.entry? (s.modifyEntries x (·.filter keep)) x key =
      (map.entries.filter keep).get? key := by
    rw [s.entry?_modifyEntries, if_pos rfl, entries]
    rfl
  have before (key : String) : s.entry? x key = map.entries.get? key := by
    rw [s.entry?_eq, entries]
    rfl
  refine .entries rfl ⟨rfl, rfl, rfl, rfl⟩ (x := x) ?_ ?_ ?_
  · intro y key other
    rw [s.entry?_modifyEntries, if_neg fun same => other same.symm]
  · intro key a there
    rw [now, Table.get?_filter_eq_some_iff] at there
    rw [before]
    exact there.1
  · intro key b there bound
    rw [before] at there
    rw [now, Table.get?_filter_eq_some_iff]
    refine ⟨there, ?_⟩
    cases kept : keep key b with
    | true => rfl
    | false =>
      rw [unbound key b there kept] at bound
      cases bound

theorem prune (calm : ∀ c h, ¬ new (.endBinding c h)) : NoNewBindings new ⟨s, hand, running, flight⟩
    ⟨(s.discardAll map.prune.2).setMap x (some map.prune.1), hand, running, flight⟩ := by
  have same := s.sameButBindings_discardAll map.prune.2
  refine (discardAll map.prune.2).trans (.setMap ((same.map? x).trans here) ?_ ?_) calm
  · intro key a kept
    exact ((map.get?_prune key a).mp kept).1
  · intro key b present bound
    refine (map.get?_prune key b).mpr ⟨present, ?_⟩
    intro reported
    have taken := (map.mem_prune b).mpr ⟨key, present, reported⟩
    rw [s.isBound_discardAll taken] at bound
    cases bound

theorem dropMap (calm : ∀ c h, ¬ new (.endBinding c h)) :
    NoNewBindings new ⟨s, hand, running, flight⟩
    ⟨(s.discardAll map.references).setMap x none, hand, running, flight⟩ := by
  have same := s.sameButBindings_discardAll map.references
  refine (discardAll map.references).trans (.setMap ((same.map? x).trans here) ?_ ?_) calm
  · intro key a there
    cases there
  · intro key b present bound
    have taken := (map.mem_references b).mpr ⟨key, present⟩
    rw [s.isBound_discardAll taken] at bound
    cases bound

end Ending

end NoNewBindings

/-- Every move but those that bring a reference or a binding makes no new binding. -/
theorem Move.noNew {t : Tag} {m m' : Moment} (sound : m.session.HeapsSound) (move : Move t m m')
    (quiet : t.brings = false) : NoNewBindings t.defines m m' := by
  obtain ⟨s, hand, running, flight⟩ := m
  cases move with
  | remark _ e _ => exact .unseen rfl rfl rfl rfl (Nat.le_refl _) rfl
  | record _ d => exact .unseen rfl rfl rfl rfl (Nat.le_refl _) rfl
  | initialized _ x => exact .unseen rfl rfl rfl rfl (Nat.le_refl _) rfl
  | tornDown _ x =>
    unfold Session.recordTornDown
    dsimp only
    split <;> exact .unseen rfl rfl rfl rfl (Nat.le_refl _) rfl
  | freshRuntime _ => exact .unseen rfl rfl rfl rfl (Nat.le_refl _) rfl
  | freshHandle _ => exact .unseen rfl rfl rfl rfl (Nat.le_succ _) rfl
  | newPinSet _ => exact .unseen rfl rfl rfl rfl (Nat.le_refl _) rfl
  | modifyPins _ pins f => exact .unseen rfl rfl rfl rfl (Nat.le_refl _) rfl
  | newHeap _ config => exact .newHeap config
  | newTrace _ => exact .newTrace
  | newMap _ => exact .newMap
  | script _ here heap stash =>
    refine .collecting [] here ?_
    intro f waits
    rw [heap, stash] at waits
    exact Or.inl waits
  | advance _ here => exact .collecting [] here fun _ waits => Or.inl waits
  | alloc _ here _ allocated =>
    refine .collecting [] here ?_
    intro f waits
    simp only [Heap.pendingOf_alloc (sound _ _ here) allocated] at waits
    exact Or.inl waits
  | upkeep _ here upkeep =>
    refine .collecting [] here ?_
    intro f waits
    simp only [Heap.pendingOf_upkeep upkeep] at waits
    exact Or.inl waits
  | reclaim _ here idle calm reclamation =>
    exact .reclaim here (Heap.reclaims (sound _ _ here) reclamation)
  | receive _ here idle calm proper received => exact .receive here received rfl
  | unstash _ here idle calm stashed => exact .unstash here stashed
  | drain _ here idle calm all => exact .drain here all
  | close _ here calm => exact .close _
  | begin _ idle flies =>
    have flies : flight = _ := flies
    subst flies
    exact .next (Moment.held_congr rfl rfl rfl) rfl rfl rfl rfl nofun
  | report _ idle flies =>
    have flies : flight = _ := flies
    subst flies
    refine .next ?_ rfl rfl rfl rfl nofun
    intro p
    cases p with
    | ref r => rfl
    | entry y k => exact (s.logRun _).held_report _ _ _ (.entry y k)
    | hand => rfl
  | fire _ here idle flies =>
    have flies : flight = _ := flies
    subst flies
    exact .fire
  | skip _ runs => exact .unseen rfl rfl rfl rfl (Nat.le_refl _) rfl
  | actPin _ here runs => exact .unseen rfl rfl rfl rfl (Nat.le_refl _) rfl
  | actUnpin _ here runs => exact .unseen rfl rfl rfl rfl (Nat.le_refl _) rfl
  | disarm _ here held => exact .disarm _ _
  | @discard _ p ref held =>
    exact .ending (s.sameButBindings_discard ref) (s.size_cells_discard ref) fun d target bound =>
      s.bound_of_discard ref bound
  | clear _ here held binding bound dead => exact .clear _ _ _ _
  | @empty _ r ref here unbound =>
    refine .setRef here unbound ?_
    intro a same
    cases same
    exact ⟨rfl, rfl⟩
  | vacate _ here unbound =>
    refine .setRef here unbound ?_
    intro _ same
    cases same
  | dropHand _ here unbound =>
    have here : hand = some _ := here
    subst here
    exact .dropHand unbound
  | thin _ here unbound => exact .thin here unbound
  | prune _ here => exact .prune here fun _ _ fresh => fresh
  | dropMap _ here => exact .dropMap here fun _ _ fresh => fresh
  | newRef _ => cases quiet
  | take _ free => cases quiet
  | attach _ here held loose unbound calm received => cases quiet
  | enlist _ here => cases quiet
  | place _ here map vacant => cases quiet

/-- The finalizer of a binding is defined by its bind only. -/
theorem Move.calm {t : Tag} {m m' : Moment} (move : Move t m m') (c : Nat) (h : HandleId) :
    ¬ t.defines (.endBinding c h) := by
  intro defined
  cases move with
  | receive _ here idle calm proper received =>
    cases defined
    exact proper
  | _ => exact defined

end WeakRefs
