import WeakRefs.Session.Delivery

/-!
# Heap operations of a session

The heap says what is due; here it is put on record, delivered and counted. Every finalizer comes in
through `define`.
-/

namespace WeakRefs

namespace Session

def pinsOf (s : Session) (i : Nat) : Option Nat := (s.collector? i).map (·.heap.pins)

def newHeap (s : Session) (config : HeapConfig) : Session × InstanceId :=
  let runtime := s.freshRuntime
  let pins := runtime.1.newPinSet
  let heap : Heap Finalizer := { runtime := runtime.2, config, pins := pins.2 }
  let s := { pins.1 with collectors := pins.1.collectors.push (some { heap }) }
  (s.recordInitialized runtime.2, runtime.2)

def deliverDue (s : Session) (focus : Focus) (i roots : Nat) (due : List Finalizer) : Session :=
  (s.deliverAll focus roots due).modifyHeap i (·.countRun due.length)

/-- Take in the result of a reclamation: each object is reported, then all finalizers run. -/
def settle (s : Session) (focus : Focus) (i : Nat)
    (outcome : Heap Finalizer × List (Reclaimed Finalizer)) : Session :=
  let s := s.modifyHeap i fun _ => outcome.1
  let s := s.emitAll (outcome.2.map fun r => .reclaimed r.index r.due.length)
  s.deliverDue focus i outcome.1.pins (outcome.2.flatMap Reclaimed.due)

def alloc (s : Session) (i : Nat) (kind : ObjectKind) : Session × Except RefError ObjectRef :=
  match s.collector? i with
  | none => (s, .error .heapExhausted)
  | some c =>
    match c.heap.alloc kind with
    | .ok (heap, r) => (s.modifyHeap i fun _ => heap, .ok r)
    | .error e => (s, .error e)

def retain (s : Session) (i : Nat) (r : ObjectRef) : Session := s.modifyHeap i (·.retain r)

def releaseRoot (s : Session) (i : Nat) (r : ObjectRef) : Session :=
  match s.collector? i with
  | none => s
  | some c => s.settle .idle i (c.heap.release r)

def collect (s : Session) (focus : Focus) (i : Nat) : Session × Nat :=
  match s.collector? i with
  | none => (s, 0)
  | some c =>
    let outcome := c.heap.sweep
    let s := (s.settle focus i outcome).modifyHeap i Heap.countCollection
    (s.emit (.collected none outcome.2.length outcome.1.liveCount), outcome.2.length)

def attach (s : Session) (focus : Focus) (i : Nat) (heap : Heap Finalizer) (r : ObjectRef)
    (f : Finalizer) : Session × Except RefError Affiliation :=
  match heap.define r f with
  | .kept heap affiliation => (s.modifyHeap i fun _ => heap, .ok affiliation)
  | .due => (s.deliverDue focus i heap.pins [f], .ok .indirect)
  | .refused e => (s, .error e)

/-- Define a finalizer through the collector, which uses up one directive of its script. -/
def define (s : Session) (focus : Focus) (i : Nat) (r : ObjectRef) (f : Finalizer) :
    Session × Except RefError Affiliation :=
  match s.collector? i with
  | none => (s, .error .deadObject)
  | some c =>
    let s := s.modifyCollector i Collector.advance
    match c.nextDirective with
    | .pass => s.attach focus i c.heap r f
    | .fail e => (s, .error e)
    | .now affiliation => (s.deliver focus c.heap.pins f, .ok affiliation)
    | .stash affiliation =>
      (s.modifyCollector i fun c => { c with stash := c.stash ++ [f] }, .ok affiliation)
    | .lose affiliation => (s, .ok affiliation)

def fireStashed (s : Session) (i position : Nat) : Session × Bool :=
  match s.collector? i with
  | none => (s, false)
  | some c =>
    match c.stash[position]? with
    | none => (s, false)
    | some f =>
      let s := s.modifyCollector i fun c => { c with stash := c.stash.eraseIdx position }
      (s.deliver .idle c.heap.pins f, true)

/-- Shut a heap down, its side table drained in the order of `groups`: the runtime is recorded as
torn down, pending finalizers are taken out and delivered or discarded, and no pin remains. -/
def shutDownIn (s : Session) (i : Nat) (heap : Heap Finalizer)
    (groups : List (ObjectRef × List Finalizer)) : Session :=
  let s := s.recordTornDown heap.runtime
  let due := heap.pendingDirect ++ groups.flatMap Prod.snd
  let s :=
    match heap.config.teardown with
    | .fire => (s.modifyHeap i Heap.emptied).deliverAll .idle heap.pins due
    | .drop => s.emit (.discarded due.length)
  let s := s.clearPins heap.pins
  { s with collectors := s.collectors.setIfInBounds i none }

def shutDown (s : Session) (i : Nat) : Session :=
  match s.collector? i with
  | some c => s.shutDownIn i c.heap c.heap.pendingIndirect
  | none => s

end Session

end WeakRefs
