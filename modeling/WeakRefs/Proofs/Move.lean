import Mathlib.Logic.Relation
import WeakRefs.Proofs.Moment

/-!
# Moves: what operations are made of

A move makes one change to which nothing can come in between, so an invariant of moves is an
invariant of all operations. That operations are runs of moves is shown in
`WeakRefs.Proofs.Moves.Op`.
-/

namespace WeakRefs

/-- What a move may do that not every run allows. -/
inductive Tag where
  | free
  /-- A handle is bound to a target of a heap. -/
  | bind (heap : Nat) (handle : HandleId) (target : ObjectRef)
  /-- A reference comes to a place. -/
  | arrive (p : Place)
  /-- The binding in a place ends, and not by its finalizer. -/
  | touch (p : Place)
  /-- Entries leave a map that were not reported to it. -/
  | thin (m : Nat)
  | define (f : Finalizer)
  | pins
  | script (heap : Nat)
  | alloc
  | newHeap
  | shutDown (heap : Nat)
  | tornDown (runtime : InstanceId)

namespace Heap
variable {φ : Type}

/-- The changes of a heap that keep all objects and finalizers. -/
inductive Upkeep (h : Heap φ) : Heap φ → Prop where
  | retain (r : ObjectRef) : Upkeep h (h.retain r)
  | countRun (n : Nat) : Upkeep h (h.countRun n)
  | countCollection : Upkeep h h.countCollection

/-- The two ways in which a heap reclaims. -/
inductive Reclamation (h : Heap φ) : Heap φ × List (Reclaimed φ) → Prop where
  | release (r : ObjectRef) : Reclamation h (h.release r)
  | sweep : Reclamation h h.sweep

end Heap

namespace Collector

/-- How a collector receives a finalizer on a target: what becomes of the collector, whether the
finalizer runs at once, and the affiliation that is claimed. Without a script the heap decides. -/
inductive Receives (c : Collector) (r : ObjectRef) (f : Finalizer) :
    Collector → Bool → Affiliation → Prop where
  | kept {heap : Heap Finalizer} {a : Affiliation} :
    c.heap.define r f = .kept heap a → Receives c r f { c.advance with heap } false a
  | due : c.heap.object? r = none → Receives c r f c.advance true .indirect
  | now (a : Affiliation) : c.script ≠ [] → Receives c r f c.advance true a
  | stashed (a : Affiliation) :
    c.script ≠ [] → Receives c r f { c.advance with stash := c.stash ++ [f] } false a
  | lost (a : Affiliation) : c.script ≠ [] → Receives c r f c.advance false a

end Collector

theorem Heap.pins_of_kept {φ : Type} {h heap : Heap φ} {r : ObjectRef} {f : φ} {a : Affiliation}
    (kept : h.define r f = .kept heap a) : heap.pins = h.pins ∧ heap.runtime = h.runtime := by
  unfold define at kept
  split at kept
  · cases kept
  · split at kept
    · cases kept
    · cases kept
      exact ⟨rfl, rfl⟩
    · cases kept
      exact ⟨rfl, rfl⟩

/-- A collector that receives a finalizer is of the same runtime and has the same pin set. -/
theorem Collector.Receives.pins {c c' : Collector} {r : ObjectRef} {f : Finalizer} {ran : Bool}
    {a : Affiliation} (received : c.Receives r f c' ran a) :
    c'.heap.pins = c.heap.pins ∧ c'.heap.runtime = c.heap.runtime := by
  cases received with
  | kept kept => exact Heap.pins_of_kept kept
  | due _ => exact ⟨rfl, rfl⟩
  | now _ _ => exact ⟨rfl, rfl⟩
  | stashed _ _ => exact ⟨rfl, rfl⟩
  | lost _ _ => exact ⟨rfl, rfl⟩

theorem Collector.Receives.advanced {c c' : Collector} {r : ObjectRef} {f : Finalizer}
    {a : Affiliation} (received : c.Receives r f c' true a) : c' = c.advance := by
  cases received with
  | due _ => rfl
  | now _ _ => rfl

namespace Event

/-- Whether an event is about no binding, no reclaimed object and no runtime. -/
def isRemark : Event → Bool
  | notFinalizable _ _ | pruned _ | swept _ | collected _ _ _ | discarded _ => true
  | _ => false

end Event

namespace Session

/-- Let a binding arrive: its cell is made, its finalizer is received by collector `i`, which
becomes `c`, and its handle is pinned unless the finalizer ran. -/
def arrive (s : Session) (i : Nat) (c : Collector) (handle : HandleId) (target : ObjectRef)
    (ran : Bool) (a : Affiliation) : Session :=
  { s with
    cells := s.cells.push (if ran then .cleared else .bound target)
    pinSets := if ran then s.pinSets else (s.pin c.heap.pins handle).pinSets
    collectors := s.collectors.setIfInBounds i (some c)
    journal := s.journal.push (.bound handle a)
    runs := if ran then s.runs.push (.endBinding s.cells.size handle) else s.runs }

theorem cell_arrive (s : Session) {i : Nat} {c : Collector} {handle : HandleId}
    {target : ObjectRef} {ran : Bool} {a : Affiliation} (d : Nat) :
    (s.arrive i c handle target ran a).cell d =
      if d = s.cells.size then (if ran then .cleared else .bound target) else s.cell d := by
  unfold cell arrive
  simp only [Array.getD_eq_getD_getElem?, Array.getElem?_push]
  split <;> rfl

def reclaimedEvents (rs : List (Reclaimed Finalizer)) : List Event :=
  rs.map fun r => .reclaimed r.index r.due.length

end Session

namespace Moment

/-- The finalizers that may be defined other than by a bind: a user's, or the report of the
reference in hand. -/
def MayDefine (m : Moment) : Finalizer → Prop
  | .endBinding _ _ => False
  | .report _ _ handle => ∃ ref, m.hand = some ref ∧ ref.id = handle
  | .user _ _ => True

end Moment

/-- One change that happens as a whole. -/
inductive Move : Tag → Moment → Moment → Prop where
  | remark (m : Moment) (e : Event) : e.isRemark = true →
    Move .free m { m with session := m.session.emit e }
  | record (m : Moment) (d : Delivery) :
    Move .free m
      { m with session := { m.session with deliveries := m.session.deliveries.push d } }
  | initialized (m : Moment) (x : InstanceId) :
    Move .free m { m with session := m.session.recordInitialized x }
  | tornDown (m : Moment) (x : InstanceId) :
    Move (.tornDown x) m { m with session := m.session.recordTornDown x }
  | freshRuntime (m : Moment) : Move .free m { m with session := m.session.freshRuntime.1 }
  | freshHandle (m : Moment) : Move .free m { m with session := m.session.freshHandle.1 }
  | newPinSet (m : Moment) : Move .free m { m with session := m.session.newPinSet.1 }
  | modifyPins (m : Moment) (pins : Nat) (f : Roster HandleId → Roster HandleId) :
    Move .pins m { m with session := m.session.modifyPins pins f }
  | newHeap (m : Moment) (config : HeapConfig) :
    Move .newHeap m { m with session := (m.session.newHeap config).1 }
  | newTrace (m : Moment) : Move .free m { m with session := m.session.addRef none }
  | newMap (m : Moment) : Move .free m { m with session := m.session.addMap }
  | script (m : Moment) {i : Nat} {c c' : Collector} : m.session.collector? i = some c →
    c'.heap = c.heap → c'.stash = c.stash →
    Move (.script i) m { m with session := m.session.setCollector i c' }
  | advance (m : Moment) {i : Nat} {c : Collector} : m.session.collector? i = some c →
    Move .free m { m with session := m.session.setCollector i c.advance }
  | alloc (m : Moment) {i : Nat} {c : Collector} {kind : ObjectKind} {heap : Heap Finalizer}
      {r : ObjectRef} : m.session.collector? i = some c → m.flight = [] →
    c.heap.alloc kind = .ok (heap, r) →
    Move .alloc m { m with session := m.session.setCollector i { c with heap } }
  | upkeep (m : Moment) {i : Nat} {c : Collector} {heap : Heap Finalizer} :
    m.session.collector? i = some c → c.heap.Upkeep heap →
    Move .free m { m with session := m.session.setCollector i { c with heap } }
  | reclaim (m : Moment) {i : Nat} {c : Collector}
      {outcome : Heap Finalizer × List (Reclaimed Finalizer)} :
    m.session.collector? i = some c → m.running = [] → m.flight = [] →
    c.heap.Reclamation outcome →
    Move .free m { m with
      session := (m.session.setCollector i { c with heap := outcome.1 }).emitAll
        (Session.reclaimedEvents outcome.2)
      flight := outcome.2.flatMap Reclaimed.due }
  | receive (m : Moment) {i : Nat} {c c' : Collector} {r : ObjectRef} {f : Finalizer} {ran : Bool}
      {a : Affiliation} : m.session.collector? i = some c → m.running = [] → m.flight = [] →
    m.MayDefine f → c.Receives r f c' ran a →
    Move (.define f) m { m with
      session := m.session.setCollector i c'
      flight := if ran then [f] else [] }
  | unstash (m : Moment) {i : Nat} {c : Collector} {position : Nat} {f : Finalizer} :
    m.session.collector? i = some c → m.running = [] → m.flight = [] →
    c.stash[position]? = some f →
    Move .free m { m with
      session := m.session.setCollector i { c with stash := c.stash.eraseIdx position }
      flight := [f] }
  | drain (m : Moment) {i : Nat} {c : Collector} {groups : List (ObjectRef × List Finalizer)} :
    m.session.collector? i = some c → m.running = [] → m.flight = [] →
    groups.Perm c.heap.sideTable.pairs →
    Move (.shutDown i) m { m with
      session := m.session.setCollector i { c with heap := c.heap.emptied }
      flight := c.heap.pendingDirect ++ groups.flatMap Prod.snd }
  | close (m : Moment) {i : Nat} {c : Collector} : m.session.collector? i = some c →
    m.flight = [] →
    Move (.shutDown i) m { m with
      session := { m.session.clearPins c.heap.pins with
        collectors := m.session.collectors.setIfInBounds i none } }
  | begin (m : Moment) {label : String} {actions : List Action} {rest : List Finalizer} :
    m.running = [] → m.flight = .user label actions :: rest →
    Move .free m { m with
      session := m.session.logRun (.user label actions), running := actions, flight := rest }
  | report (m : Moment) {x : Nat} {key : String} {handle : HandleId} {rest : List Finalizer} :
    m.running = [] → m.flight = .report x key handle :: rest →
    Move .free m { m with
      session := (m.session.logRun (.report x key handle)).modifyMap x (·.report key handle)
      flight := rest }
  | fire (m : Moment) {i : Nat} {c : Collector} {cell : Nat} {handle : HandleId}
      {rest : List Finalizer} : m.session.collector? i = some c → m.running = [] →
    m.flight = .endBinding cell handle :: rest →
    Move .free m { m with
      session := (m.session.logRun (.endBinding cell handle)).endBinding c.heap.pins cell handle
      flight := rest }
  | skip (m : Moment) {a : Action} {rest : List Action} : m.running = a :: rest →
    Move .free m { m with running := rest }
  | actPin (m : Moment) {i : Nat} {c : Collector} {handle : HandleId} {rest : List Action} :
    m.session.collector? i = some c → m.running = .pin handle :: rest →
    Move .free m { m with session := m.session.pin c.heap.pins handle }
  | actUnpin (m : Moment) {i : Nat} {c : Collector} {handle : HandleId} {rest : List Action} :
    m.session.collector? i = some c → m.running = .unpin handle :: rest →
    Move .free m { m with session := m.session.unpin c.heap.pins handle }
  | disarm (m : Moment) {i : Nat} {c : Collector} {p : Place} {ref : WeakReference} :
    m.session.collector? i = some c → m.held p = some ref →
    Move (.touch p) m { m with session := m.session.disarm c.heap.pins ref }
  | discard (m : Moment) {p : Place} {ref : WeakReference} : m.held p = some ref →
    Move (.touch p) m { m with session := m.session.discard ref }
  | clear (m : Moment) {i : Nat} {c : Collector} {p : Place} {ref : WeakReference} {b : Binding}
      {target : ObjectRef} : m.session.collector? i = some c → m.held p = some ref →
    ref.binding = some b → m.session.cell b.cell = .bound target → c.isReachable target = false →
    Move (.touch p) m { m with
      session := (m.session.clearDead c.heap.pins b.cell ref.id).emit (.clearedOnRead ref.id) }
  | empty (m : Moment) {r : Nat} {ref : WeakReference} : m.session.ref? r = some ref →
    m.session.isBound ref = false →
    Move (.touch (.ref r)) m { m with session := m.session.setRef r (some ref.emptied) }
  | vacate (m : Moment) {r : Nat} {ref : WeakReference} : m.session.ref? r = some ref →
    m.session.isBound ref = false →
    Move (.touch (.ref r)) m { m with session := m.session.setRef r none }
  | dropHand (m : Moment) {ref : WeakReference} : m.hand = some ref →
    m.session.isBound ref = false → Move .free m { m with hand := none }
  | thin (m : Moment) {x : Nat} {map : WeakValueMap} {keep : String → WeakReference → Bool} :
    m.session.map? x = some map →
    (∀ key ref, map.entries.get? key = some ref → keep key ref = false →
      m.session.isBound ref = false) →
    Move (.thin x) m { m with session := m.session.modifyEntries x (·.filter keep) }
  | prune (m : Moment) {x : Nat} {map : WeakValueMap} : m.session.map? x = some map →
    Move .free m { m with
      session := (m.session.discardAll map.prune.2).setMap x (some map.prune.1) }
  | dropMap (m : Moment) {x : Nat} {map : WeakValueMap} : m.session.map? x = some map →
    Move .free m { m with
      session := (m.session.discardAll map.references).setMap x none }
  | newRef (m : Moment) :
    Move (.arrive (.ref m.session.refs.size)) m { m with
      session := m.session.freshHandle.1.addRef (some { id := m.session.freshHandle.2 }) }
  | take (m : Moment) : m.hand = none →
    Move (.arrive .hand) m { m with
      session := m.session.freshHandle.1, hand := some { id := m.session.freshHandle.2 } }
  | attach (m : Moment) {i : Nat} {c c' : Collector} {p : Place} {ref : WeakReference}
      {target : ObjectRef} {ran : Bool} {a : Affiliation} : m.session.collector? i = some c →
    m.held p = some ref → (∀ x key, p ≠ .entry x key) → m.session.isBound ref = false →
    m.flight = [] →
    c.Receives target (.endBinding m.session.cells.size ref.id) c' ran a →
    Move (.bind i ref.id target) m (Moment.put
      { m with session := m.session.arrive i c' ref.id target ran a } p
      { ref with binding := some ⟨m.session.cells.size, a, c.heap.runtime, c.heap.pins⟩ })
  | enlist (m : Moment) {ref : WeakReference} : m.hand = some ref →
    Move (.arrive (.ref m.session.refs.size)) m
      { m with session := m.session.addRef (some ref), hand := none }
  | place (m : Moment) {x : Nat} {map : WeakValueMap} {key : String} {ref : WeakReference} :
    m.hand = some ref → m.session.map? x = some map →
    (∀ previous, map.entries.get? key = some previous → m.session.isBound previous = false) →
    Move (.arrive (.entry x key)) m
      { m with session := m.session.modifyEntries x (·.insert key ref), hand := none }

/-- A run of moves whose tags are all allowed. -/
def Moves (T : Tag → Prop) : Moment → Moment → Prop :=
  Relation.ReflTransGen fun m m' => ∃ t, T t ∧ Move t m m'

namespace Moves
variable {T U : Tag → Prop} {m m' m'' : Moment}

theorem refl : Moves T m m := Relation.ReflTransGen.refl

theorem single {t : Tag} (allowed : T t) (move : Move t m m') : Moves T m m' :=
  Relation.ReflTransGen.single ⟨t, allowed, move⟩

theorem trans (first : Moves T m m') (rest : Moves T m' m'') : Moves T m m'' :=
  Relation.ReflTransGen.trans first rest

theorem weaken (run : Moves T m m') (wider : ∀ t, T t → U t) : Moves U m m' := by
  refine Relation.ReflTransGen.mono ?_ _ _ run
  rintro a b ⟨t, allowed, move⟩
  exact ⟨t, wider t allowed, move⟩

theorem preserves {I : Moment → Prop} (run : Moves T m m')
    (step : ∀ {t a b}, T t → Move t a b → I a → I b) (start : I m) : I m' := by
  induction run with
  | refl => exact start
  | tail _ last ih =>
    obtain ⟨t, allowed, move⟩ := last
    exact step allowed move ih

end Moves

end WeakRefs
