import WeakRefs.Session.ValueMap

/-!
# Operations and runs

`Op` lists what a host can ask of a session, `perform` carries one operation out, and `after` is the
session that a run leaves. A number that names nothing makes an operation without effect.
-/

namespace WeakRefs

/-- One request of the host. -/
inductive Op where
  | newHeap (config : HeapConfig)
  | shutDown (heap : Nat)
  | alloc (heap : Nat) (kind : ObjectKind)
  | retain (heap : Nat) (obj : ObjectRef)
  | release (heap : Nat) (obj : ObjectRef)
  | collect (heap : Nat)
  | isLive (heap : Nat) (obj : ObjectRef)
  | isReachable (heap : Nat) (obj : ObjectRef)
  | kind (heap : Nat) (obj : ObjectRef)
  | define (heap : Nat) (obj : ObjectRef) (label : String) (actions : List Action)
  | script (heap : Nat) (directives : List Directive)
  | fire (heap : Nat) (position : Nat)
  | reach (heap : Nat) (obj : ObjectRef) (answer : Option Bool)
  | initialized (runtime : InstanceId)
  | tornDown (runtime : InstanceId)
  | isAlive (runtime : InstanceId)
  | aliveCount
  | nextRuntime
  | nextHandle
  | newRef
  | newRefTo (heap : Nat) (obj : ObjectRef)
  | bind (heap ref : Nat) (obj : ObjectRef)
  | read (heap ref : Nat)
  | object (heap ref : Nat)
  | refresh (heap ref : Nat)
  | refDefine (heap ref : Nat) (label : String) (actions : List Action)
  | releaseRef (heap ref : Nat)
  | inspect (ref : Nat)
  | dropRef (ref : Nat)
  | newMap
  | mapInsert (heap map : Nat) (key : String) (obj : ObjectRef)
  | mapGet (heap map : Nat) (key : String)
  | mapRemove (heap map : Nat) (key : String)
  | mapUpdate (heap map : Nat)
  | mapSize (map : Nat)
  | dropMap (map : Nat)
  | newPinSet
  | pin (pins : Nat) (handle : HandleId)
  | unpin (pins : Nat) (handle : HandleId)
  | isPinned (pins : Nat) (handle : HandleId)
  | clearPins (pins : Nat)
  | pinCount (pins : Nat)

structure RefInfo where
  id : HandleId
  bound : Bool
  affiliation : Option Affiliation
  deriving DecidableEq

namespace RefInfo

def describe (info : RefInfo) : String :=
  let affiliation :=
    match info.affiliation with
    | some a => "Some(" ++ a.name ++ ")"
    | none => "None"
  "WeakReference \x7b id: HandleId(" ++ toString info.id.raw ++ "), bound: "
    ++ (if info.bound then "true" else "false") ++ ", affiliation: " ++ affiliation ++ " \x7d"

end RefInfo

inductive Reply where
  | done
  | flag (b : Bool)
  | count (n : Nat)
  | object (r : Option ObjectRef)
  | kind (k : Option ObjectKind)
  | affiliation (a : Affiliation)
  | failed (e : RefError)
  | identity (raw : Nat)
  | heap (runtime : InstanceId) (config : HeapConfig)
  | info (i : RefInfo)
  | size (n : Nat)
  | pins (p : Nat)
  deriving DecidableEq

namespace Session

def inspect (s : Session) (r : WeakReference) : RefInfo := ⟨r.id, s.isBound r, r.affiliation?⟩

def attachedReply : Except RefError Affiliation → Reply
  | .ok a => .affiliation a
  | .error e => .failed e

def withRef (s : Session) (r : Nat) (f : WeakReference → Session × Reply) : Session × Reply :=
  match s.ref? r with
  | some ref => f ref
  | none => (s, .done)

def ask (s : Session) (i : Nat) (f : Collector → Reply) : Session × Reply :=
  (s, ((s.collector? i).map f).getD .done)

def bindRef (s : Session) (i r : Nat) (ref : WeakReference) (target : ObjectRef) :
    Session × Except RefError Affiliation :=
  let made := s.bind (.reference r) i ref target
  (made.1.setRef r (some made.2.1), made.2.2)

def addRefTo (s : Session) (i : Nat) (target : ObjectRef) : Session × Reply :=
  let made := s.bindNew .idle i target
  match made.2 with
  | .ok ref => (made.1.addRef (some ref), .identity ref.id.raw)
  | .error e => (made.1.addRef none, .failed e)

def perform (s : Session) : Op → Session × Reply
  | .newHeap config =>
    let made := s.newHeap config
    (made.1, .heap made.2 config)
  | .shutDown i => (s.shutDown i, .done)
  | .alloc i kind =>
    let made := s.alloc i kind
    match made.2 with
    | .ok r => (made.1, .object (some r))
    | .error e => (made.1, .failed e)
  | .retain i obj => (s.retain i obj, .done)
  | .release i obj => (s.releaseRoot i obj, .done)
  | .collect i =>
    let run := s.collect .idle i
    (run.1, .count run.2)
  | .isLive i obj => s.ask i fun c => .flag (c.heap.isLive obj)
  | .isReachable i obj => s.ask i fun c => .flag (c.isReachable obj)
  | .kind i obj => s.ask i fun c => .kind (c.heap.kind? obj)
  | .define i obj label actions =>
    let defined := s.define .idle i obj (.user label actions)
    (defined.1, attachedReply defined.2)
  | .script i directives =>
    (s.modifyCollector i fun c => { c with script := c.script ++ directives },
      .count (((s.collector? i).map fun c => c.script.length + directives.length).getD 0))
  | .fire i position =>
    let fired := s.fireStashed i position
    (fired.1, .flag fired.2)
  | .reach i obj answer => (s.modifyCollector i (·.overrule obj answer), .done)
  | .initialized x => (s.recordInitialized x, .done)
  | .tornDown x => (s.recordTornDown x, .done)
  | .isAlive x => (s, .flag (s.isAlive x))
  | .aliveCount => (s, .count s.alive.size)
  | .nextRuntime => (s.freshRuntime.1, .identity s.freshRuntime.2.raw)
  | .nextHandle => (s.freshHandle.1, .identity s.freshHandle.2.raw)
  | .newRef =>
    let fresh := s.freshHandle
    (fresh.1.addRef (some { id := fresh.2 }), .identity fresh.2.raw)
  | .newRefTo i obj => s.addRefTo i obj
  | .bind i r obj => s.withRef r fun ref =>
    let made := s.bindRef i r ref obj
    (made.1, attachedReply made.2)
  | .read i r => s.withRef r fun ref =>
    let found := s.read i ref
    (found.1, .object found.2)
  | .object i r => s.withRef r fun ref =>
    let found := s.object (.reference r) i ref
    (found.1, .object found.2)
  | .refresh i r => s.withRef r fun ref => (s.refresh (.reference r) i ref, .done)
  | .refDefine i r label actions => s.withRef r fun ref =>
    let defined := s.defineOn (.reference r) i ref (.user label actions)
    (defined.1, attachedReply defined.2)
  | .releaseRef i r => (((s.pinsOf i).map fun roots => s.releaseRef roots r).getD s, .done)
  | .inspect r => s.withRef r fun ref => (s, .info (s.inspect ref))
  | .dropRef r => (s.dropRef r, .done)
  | .newMap => (s.addMap, .done)
  | .mapInsert i m key obj =>
    let inserted := s.mapInsert i m key obj
    match inserted.2 with
    | .ok _ => (inserted.1, .done)
    | .error e => (inserted.1, .failed e)
  | .mapGet i m key =>
    let found := s.mapGet i m key
    (found.1, .object found.2)
  | .mapRemove i m key =>
    let found := s.mapRemove i m key
    (found.1, .object found.2)
  | .mapUpdate i m => (s.mapUpdate i m, .done)
  | .mapSize m => (s, .size (((s.map? m).map WeakValueMap.size).getD 0))
  | .dropMap m => (s.dropMap m, .done)
  | .newPinSet => (s.newPinSet.1, .pins s.newPinSet.2)
  | .pin pins handle => (s.pin pins handle, .done)
  | .unpin pins handle => (s.unpin pins handle, .done)
  | .isPinned pins handle => (s, .flag (handle ∈ s.pinned pins))
  | .clearPins pins => (s.clearPins pins, .done)
  | .pinCount pins => (s, .size (s.pinned pins).size)

/-- The session after a run of operations. -/
def after (s : Session) (ops : List Op) : Session := ops.foldl (fun s op => (s.perform op).1) s

@[simp] theorem after_nil (s : Session) : s.after [] = s := rfl

@[simp] theorem after_cons (s : Session) (op : Op) (ops : List Op) :
    s.after (op :: ops) = (s.perform op).1.after ops := rfl

theorem after_append (s : Session) (ops more : List Op) :
    s.after (ops ++ more) = (s.after ops).after more := List.foldl_append

end Session

end WeakRefs
