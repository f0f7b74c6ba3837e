import WeakRefs.Session.Op
import WeakRefs.Session.Views

/-!
# Operations in progress

While an operation goes on there is more to the state than the session: a reference that has no
place yet, what the finalizer that runs has still to do, and the finalizers that run next.
-/

namespace WeakRefs

/-- Where a reference stands. -/
inductive Place where
  | ref (r : Nat)
  | entry (m : Nat) (key : String)
  /-- In the hand of an operation that is going on. -/
  | hand
  deriving DecidableEq

namespace Session

/-- The reference in a place; between operations no reference is in hand. -/
def held (s : Session) : Place → Option WeakReference
  | .ref r => s.ref? r
  | .entry m key => s.entry? m key
  | .hand => none

/-- The target to which the reference in a place is bound. -/
def targetAt? (s : Session) (p : Place) : Option ObjectRef := (s.held p).bind s.target?

def Keeps (s : Session) (f : Finalizer) : Prop :=
  ∃ i c, s.collector? i = some c ∧ (f ∈ c.stash ∨ ∃ q, f ∈ c.heap.pendingOf q)

/-- Write a collector that is there. -/
def setCollector (s : Session) (i : Nat) (c : Collector) : Session :=
  { s with collectors := s.collectors.setIfInBounds i (some c) }

theorem collector?_congr {s s' : Session} (same : s'.collectors = s.collectors) (i : Nat) :
    s'.collector? i = s.collector? i := by
  unfold collector?
  rw [same]

section Collectors
variable (s : Session) {i : Nat} {c : Collector}

theorem lt_size_of_collector? (here : s.collector? i = some c) : i < s.collectors.size := by
  unfold collector? at here
  by_cases inside : i < s.collectors.size
  · exact inside
  · simp [inside] at here

theorem collector?_setCollector (here : s.collector? i = some c) (c' : Collector) (j : Nat) :
    (s.setCollector i c').collector? j = if j = i then some c' else s.collector? j := by
  have inside := s.lt_size_of_collector? here
  unfold collector? setCollector
  rw [Array.getElem?_setIfInBounds]
  by_cases same : i = j
  · subst same
    simp [inside]
  · have other : ¬ j = i := fun e => same e.symm
    simp [same, other]

theorem modifyCollector_eq (here : s.collector? i = some c) (f : Collector → Collector) :
    s.modifyCollector i f = s.setCollector i (f c) := by
  unfold modifyCollector setCollector
  congr 1
  apply Array.ext_getElem?
  intro j
  have at_i : s.collectors[i]? = some (some c) := Option.join_eq_some_iff.mp here
  rw [Array.getElem?_modify, Array.getElem?_setIfInBounds]
  by_cases same : i = j
  · subst same
    rw [if_pos rfl, if_pos rfl, if_pos (s.lt_size_of_collector? here), at_i]
    rfl
  · simp [same]

theorem setCollector_setCollector (c' d : Collector) :
    (s.setCollector i c').setCollector i d = s.setCollector i d := by
  simp [setCollector]

theorem lt_size_of_ref? {r : Nat} {ref : WeakReference} (here : s.ref? r = some ref) :
    r < s.refs.size := by
  unfold ref? at here
  by_cases inside : r < s.refs.size
  · exact inside
  · simp [inside] at here

theorem lt_size_of_map? {m : Nat} {map : WeakValueMap} (here : s.map? m = some map) :
    m < s.maps.size := by
  unfold map? at here
  by_cases inside : m < s.maps.size
  · exact inside
  · simp [inside] at here

end Collectors

end Session

/-- A session in the midst of an operation. -/
structure Moment where
  session : Session
  /-- A reference that was made and has no place yet. -/
  hand : Option WeakReference := none
  /-- What the finalizer that runs has still to do. -/
  running : List Action := []
  /-- Finalizers taken out of keeping, in the order in which they run. -/
  flight : List Finalizer := []

namespace Moment

def held (m : Moment) : Place → Option WeakReference
  | .ref r => m.session.ref? r
  | .entry x key => m.session.entry? x key
  | .hand => m.hand

/-- Whether a finalizer may still run: it is kept, or runs next. -/
def Awaits (m : Moment) (f : Finalizer) : Prop := m.session.Keeps f ∨ f ∈ m.flight

theorem held_atRest (s : Session) (p : Place) : (Moment.mk s none [] []).held p = s.held p := by
  cases p <;> rfl

theorem held_empty (p : Place) : Moment.held ⟨{}, none, [], []⟩ p = none := by
  cases p <;> simp [held, Session.ref?, Session.entry?, Session.map?]

theorem held_congr {m n : Moment} (refs : n.session.refs = m.session.refs)
    (maps : n.session.maps = m.session.maps) (hand : n.hand = m.hand) (p : Place) :
    n.held p = m.held p := by
  cases p with
  | ref r => simp only [held, Session.ref?, refs]
  | entry x key => simp only [held, Session.entry?, Session.map?, maps]
  | hand => exact hand

/-- Write a reference back to the place where it stands; entries are never written back. -/
def put (m : Moment) : Place → WeakReference → Moment
  | .ref r, ref => { m with session := m.session.setRef r (some ref) }
  | .entry _ _, _ => m
  | .hand, ref => { m with hand := some ref }

theorem held_put {m : Moment} {p : Place} {ref : WeakReference} (here : m.held p = some ref)
    (free : ∀ x key, p ≠ .entry x key) (ref' : WeakReference) (q : Place) :
    (m.put p ref').held q = if q = p then some ref' else m.held q := by
  cases p with
  | ref r =>
    have inside : r < m.session.refs.size := m.session.lt_size_of_ref? here
    cases q with
    | ref q =>
      simp only [put, held, Session.ref?_setRef, Place.ref.injEq]
      by_cases same : r = q
      · simp [same, same ▸ inside]
      · have other : ¬ q = r := fun e => same e.symm
        simp [same, other]
    | entry x key => simp [put, held, Session.entry?, Session.map?, Session.setRef]
    | hand => simp [put, held]
  | entry x key => exact absurd rfl (free x key)
  | hand => cases q <;> simp [put, held]

/-- Writing a reference back changes nothing but the place. -/
structure PutSame (m m' : Moment) : Prop where
  cells : m'.session.cells = m.session.cells
  pinSets : m'.session.pinSets = m.session.pinSets
  handles : m'.session.handles = m.session.handles
  runtimes : m'.session.runtimes = m.session.runtimes
  collectors : m'.session.collectors = m.session.collectors
  maps : m'.session.maps = m.session.maps
  alive : m'.session.alive = m.session.alive
  journal : m'.session.journal = m.session.journal
  runs : m'.session.runs = m.session.runs
  running : m'.running = m.running
  flight : m'.flight = m.flight

theorem put_same (m : Moment) (p : Place) (ref : WeakReference) : PutSame m (m.put p ref) := by
  cases p <;> exact ⟨rfl, rfl, rfl, rfl, rfl, rfl, rfl, rfl, rfl, rfl, rfl⟩

end Moment

end WeakRefs
