import WeakRefs.Session.Heap

/-!
# Weak references at work

`bind` defines the finalizer before anything else: where that fails, nothing has changed. `read` is
the backstop for finalizers that have not been delivered yet, and `object` also asks whether the
runtime is still there.
-/

namespace WeakRefs

namespace Session

def install (s : Session) (pins c : Nat) (handle : HandleId) (target : ObjectRef) : Session :=
  if (s.cell c).isPending then
    (s.pin pins handle).setCell c ((s.cell c).install target).1
  else s

def rejection (handle : HandleId) : RefError → List Event
  | .notFinalizable typeName => [.notFinalizable handle typeName]
  | _ => []

/-- Bind a reference to a target, which supersedes its previous binding. On an error the reference
is what it was and the new cell is forgotten. -/
def bind (s : Session) (focus : Focus) (i : Nat) (r : WeakReference) (target : ObjectRef) :
    Session × WeakReference × Except RefError Affiliation :=
  match s.collector? i with
  | none => (s, r, .error .deadObject)
  | some c =>
    let fresh := s.newCell
    let defined := fresh.1.define focus i target (.endBinding fresh.2 r.id)
    match defined.2 with
    | .error e =>
      ({ defined.1 with cells := s.cells }.emitAll (rejection r.id e), r, .error e)
    | .ok affiliation =>
      let s := defined.1.disarm c.heap.pins r
      let s := s.install c.heap.pins fresh.2 r.id target
      let binding : Binding := ⟨fresh.2, affiliation, c.heap.runtime, c.heap.pins⟩
      (s.emit (.bound r.id affiliation), { r with binding := some binding }, .ok affiliation)

/-- Make a reference bound to a target. An identity is used up even if the bind fails. -/
def bindNew (s : Session) (focus : Focus) (i : Nat) (target : ObjectRef) :
    Session × Except RefError WeakReference :=
  let fresh := s.freshHandle
  let made := fresh.1.bind focus i { id := fresh.2 } target
  (made.1, made.2.2.map fun _ => made.2.1)

def clearDead (s : Session) (roots c : Nat) (handle : HandleId) : Session :=
  let was := s.cell c
  let s := s.setCell c was.clear.1
  if was.clear.2 then s.unpin roots handle else s

/-- The target of a reference while the collector holds it reachable. A binding to a dead target
ends here if its finalizer has not run. -/
def read (s : Session) (i : Nat) (r : WeakReference) : Session × Option ObjectRef :=
  match s.collector? i, r.binding with
  | some c, some b =>
    match (s.cell b.cell).get? with
    | none => (s, none)
    | some target =>
      if c.isReachable target then (s, some target)
      else ((s.clearDead c.heap.pins b.cell r.id).emit (.clearedOnRead r.id), none)
  | _, _ => (s, none)

def refresh (s : Session) (focus : Focus) (i : Nat) (r : WeakReference) : Session :=
  if r.isIndirect then (s.collect focus i).1 else s

/-- The target of a reference after bringing its binding up to date; `none` without further ado once
the runtime of the binding is torn down. -/
def object (s : Session) (focus : Focus) (i : Nat) (r : WeakReference) :
    Session × Option ObjectRef :=
  match r.runtime? with
  | none => (s, none)
  | some x => if s.isAlive x then (s.refresh focus i r).read i r else (s, none)

def defineOn (s : Session) (focus : Focus) (i : Nat) (r : WeakReference) (f : Finalizer) :
    Session × Except RefError Affiliation :=
  let found := s.object focus i r
  match found.2 with
  | none => (found.1, .error .deadObject)
  | some target => found.1.define focus i target f

end Session

end WeakRefs
