import WeakRefs.Cell
import WeakRefs.Collector
import WeakRefs.Data.Roster
import WeakRefs.Event
import WeakRefs.ValueMap

/-!
# Sessions

A session is all that one host process holds: the runtimes that are alive, collectors, references,
maps, cells and pin sets, named by number, and its history. Finalizers are delivered in
`WeakRefs.Session.Delivery`.
-/

namespace WeakRefs

/-- The reference or map in use by the operation that is going on. -/
inductive Focus where
  | idle
  | reference (ref : Nat)
  | map (map : Nat)
  deriving DecidableEq

/-- The state of one host process. -/
structure Session where
  alive : Roster InstanceId := ∅
  runtimes : Nat := 0
  handles : Nat := 0
  pinSets : Array (Roster HandleId) := #[]
  cells : Array (Cell ObjectRef) := #[]
  collectors : Array (Option Collector) := #[]
  refs : Array (Option WeakReference) := #[]
  maps : Array (Option WeakValueMap) := #[]
  journal : Array Event := #[]
  runs : Array Finalizer := #[]
  deliveries : Array Delivery := #[]

namespace Session

def emit (s : Session) (e : Event) : Session := { s with journal := s.journal.push e }

def emitAll (s : Session) (es : List Event) : Session := es.foldl emit s

/-! ## Identities -/

def freshRuntime (s : Session) : Session × InstanceId :=
  ({ s with runtimes := s.runtimes + 1 }, ⟨s.runtimes + 1⟩)

def freshHandle (s : Session) : Session × HandleId :=
  ({ s with handles := s.handles + 1 }, ⟨s.handles + 1⟩)

/-! ## The liveness registry -/

def isAlive (s : Session) (x : InstanceId) : Bool := x ∈ s.alive

def recordInitialized (s : Session) (x : InstanceId) : Session :=
  { s with alive := s.alive.insert x }.emit (.runtimeInitialized x)

def recordTornDown (s : Session) (x : InstanceId) : Session :=
  if x ∈ s.alive then { s with alive := s.alive.erase x }.emit (.runtimeTornDown x) else s

/-! ## Pin sets -/

def pinned (s : Session) (pins : Nat) : Roster HandleId := s.pinSets.getD pins ∅

def newPinSet (s : Session) : Session × Nat :=
  ({ s with pinSets := s.pinSets.push ∅ }, s.pinSets.size)

def modifyPins (s : Session) (pins : Nat) (f : Roster HandleId → Roster HandleId) : Session :=
  { s with pinSets := s.pinSets.modify pins f }

def pin (s : Session) (pins : Nat) (handle : HandleId) : Session :=
  s.modifyPins pins (·.insert handle)

def unpin (s : Session) (pins : Nat) (handle : HandleId) : Session :=
  s.modifyPins pins (·.erase handle)

def clearPins (s : Session) (pins : Nat) : Session := s.modifyPins pins fun _ => ∅

/-! ## Cells -/

/-- The cell with a number; one that was never made counts as superseded. -/
def cell (s : Session) (c : Nat) : Cell ObjectRef := s.cells.getD c .superseded

def newCell (s : Session) : Session × Nat :=
  ({ s with cells := s.cells.push .pending }, s.cells.size)

def setCell (s : Session) (c : Nat) (state : Cell ObjectRef) : Session :=
  { s with cells := s.cells.setIfInBounds c state }

/-! ## Collectors -/

def collector? (s : Session) (i : Nat) : Option Collector := s.collectors[i]?.join

def modifyCollector (s : Session) (i : Nat) (f : Collector → Collector) : Session :=
  { s with collectors := s.collectors.modify i (Option.map f) }

def modifyHeap (s : Session) (i : Nat) (f : Heap Finalizer → Heap Finalizer) : Session :=
  s.modifyCollector i fun c => { c with heap := f c.heap }

/-! ## References and maps -/

def ref? (s : Session) (r : Nat) : Option WeakReference := s.refs[r]?.join

def setRef (s : Session) (r : Nat) (ref : Option WeakReference) : Session :=
  { s with refs := s.refs.setIfInBounds r ref }

def addRef (s : Session) (ref : Option WeakReference) : Session :=
  { s with refs := s.refs.push ref }

def map? (s : Session) (m : Nat) : Option WeakValueMap := s.maps[m]?.join

def setMap (s : Session) (m : Nat) (map : Option WeakValueMap) : Session :=
  { s with maps := s.maps.setIfInBounds m map }

def modifyMap (s : Session) (m : Nat) (f : WeakValueMap → WeakValueMap) : Session :=
  { s with maps := s.maps.modify m (Option.map f) }

def addMap (s : Session) : Session := { s with maps := s.maps.push (some {}) }

/-! ## The end of a binding -/

def isBound (s : Session) (r : WeakReference) : Bool :=
  r.binding.any fun b => (s.cell b.cell).isBound

def target? (s : Session) (r : WeakReference) : Option ObjectRef :=
  r.binding.bind fun b => (s.cell b.cell).get?

/-- Supersede a cell; if it was bound, the pin of its handle ends in the given pin set. -/
def supersede (s : Session) (pins c : Nat) (handle : HandleId) : Session :=
  let was := s.cell c
  let s := s.setCell c was.supersede.1
  if was.supersede.2 then s.unpin pins handle else s

/-- End the current binding of a reference on the given roots and report it. -/
def disarm (s : Session) (roots : Nat) (r : WeakReference) : Session :=
  match r.binding with
  | some b => (s.supersede roots b.cell r.id).emit (.disarmed r.id)
  | none => s

/-- Let go of a reference: its binding ends silently, on the pin set that the binding remembers. -/
def discard (s : Session) (r : WeakReference) : Session :=
  match r.binding with
  | some b => s.supersede b.pins b.cell r.id
  | none => s

def discardAll (s : Session) (rs : List WeakReference) : Session := rs.foldl discard s

/-- Release a reference on the given roots: it stays, empty. -/
def releaseRef (s : Session) (roots r : Nat) : Session :=
  match s.ref? r with
  | some ref => (s.disarm roots ref).setRef r (some ref.emptied)
  | none => s

def dropRef (s : Session) (r : Nat) : Session :=
  match s.ref? r with
  | some ref => (s.discard ref).setRef r none
  | none => s

def dropMap (s : Session) (m : Nat) : Session :=
  match s.map? m with
  | some map => (s.discardAll map.references).setMap m none
  | none => s

end Session

end WeakRefs
