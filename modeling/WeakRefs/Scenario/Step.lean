import WeakRefs.Log.Line
import WeakRefs.Session.Op

/-!
# Steps of a scenario

A step names collectors, objects, references, maps and pin sets by position, from the front or from
the end. `Scene.resolve` turns it into an instruction, or says why it has none; then the step has no
effect.
-/

namespace WeakRefs

inductive Fault where
  | noSuch
  | badStep
  deriving DecidableEq

/-- The names that a step uses, as written; `none` where it says nothing. -/
structure Naming where
  heap : Option Int := none
  obj : Option Int := none
  ref : Option Int := none
  map : Option Int := none
  pins : Option Int := none
  handle : Option Nat := none
  runtime : Option Nat := none

structure WrittenAction where
  name : String
  names : Naming := {}

structure Step where
  name : String
  names : Naming := {}
  kind : Option String := none
  teardown : Option String := none
  capacity : Option Nat := none
  label : String := ""
  actions : List WrittenAction := []
  queue : List String := []
  position : Nat := 0
  answer : Option Bool := none
  key : Option String := none
  preset : Option String := none
  level : Option String := none
  json : Bool := false
  spans : Bool := false

/-- What there is to do for a step. -/
inductive Instruction where
  | op (o : Op)
  | silent (o : Op)
  | alias (pins : Nat)
  | openLog (config : LogConfig)
  | isLogOpen

/-- A session on stage: the names that steps have given so far, and the log if one was opened. -/
structure Scene where
  env : Environment := {}
  session : Session := {}
  objects : Array ObjectRef := #[]
  pins : Array Nat := #[]
  log : Option (Log × Nat) := none

def position? (size : Nat) : Option Int → Option Nat
  | some (.ofNat n) => if n < size then some n else none
  | some (.negSucc n) => if n < size then some (size - 1 - n) else none
  | none => none

namespace Scene

def found {α : Type} : Option α → Except Fault α
  | some a => .ok a
  | none => .error .noSuch

def understood {α : Type} : Option α → Except Fault α
  | some a => .ok a
  | none => .error .badStep

section Names
variable (sc : Scene) (names : Naming)

def heapNamed : Except Fault (Nat × Collector) :=
  found <| do
    let i ← position? sc.session.collectors.size (some (names.heap.getD 0))
    let c ← sc.session.collector? i
    return (i, c)

def objNamed : Except Fault ObjectRef :=
  found <| (position? sc.objects.size names.obj).bind (sc.objects[·]?)

def refNamed : Except Fault (Nat × WeakReference) :=
  found <| do
    let r ← position? sc.session.refs.size names.ref
    let ref ← sc.session.ref? r
    return (r, ref)

def mapNamed : Except Fault Nat :=
  found <| do
    let m ← position? sc.session.maps.size names.map
    let _ ← sc.session.map? m
    return m

def pinsNamed : Except Fault Nat :=
  found <| (position? sc.pins.size names.pins).bind (sc.pins[·]?)

def handleNamed : Except Fault HandleId :=
  if names.ref.isSome then (sc.refNamed names).map fun r => r.2.id
  else (found names.handle).map HandleId.mk

def runtimeNamed : Except Fault InstanceId :=
  match names.runtime with
  | some raw => .ok ⟨raw⟩
  | none => (sc.heapNamed names).map fun h => h.2.heap.runtime

/-- The position of a reference or map that an action names, which may be gone by now. -/
def placeNamed (size : Nat) (written : Option Int) : Except Fault Nat :=
  found (position? size written)

end Names

def resolveAction (sc : Scene) (a : WrittenAction) : Except Fault Action :=
  let ref := placeNamed sc.session.refs.size a.names.ref
  let map := placeNamed sc.session.maps.size a.names.map
  match a.name with
  | "pin" => (sc.handleNamed a.names).map .pin
  | "unpin" => (sc.handleNamed a.names).map .unpin
  | "alive" => (sc.runtimeNamed a.names).map .isAlive
  | "ps_len" => (sc.pinsNamed a.names).map .pinCount
  | "is_bound" => ref.map .isBound
  | "ref_release" => ref.map .release
  | "ref_drop" => ref.map .dropRef
  | "map_len" => map.map .mapSize
  | "map_drop" => map.map .dropMap
  | _ => .error .badStep

def heapConfig (st : Step) : Except Fault HeapConfig := do
  let standard : HeapConfig := {}
  let teardown ←
    match st.teardown with
    | some word => understood (TeardownPolicy.ofName? word)
    | none => .ok standard.teardown
  return { teardown, capacity := st.capacity.getD standard.capacity }

def logConfig (st : Step) : Except Fault LogConfig :=
  match st.preset with
  | some name => understood (LogConfig.ofName? name)
  | none => do
    let level ←
      match st.level with
      | some word => understood (Level.ofWord? word)
      | none => .ok .info
    return { level, json := st.json, spans := st.spans }

section Resolve
variable (sc : Scene) (st : Step)

def onHeap (f : Nat → Collector → Op) : Except Fault Instruction := do
  let (i, c) ← sc.heapNamed st.names
  return .op (f i c)

def onObj (f : Nat → ObjectRef → Op) : Except Fault Instruction := do
  let (i, _) ← sc.heapNamed st.names
  let obj ← sc.objNamed st.names
  return .op (f i obj)

def onHeapRef (f : Nat → Nat → Op) : Except Fault Instruction := do
  let (i, _) ← sc.heapNamed st.names
  let (r, _) ← sc.refNamed st.names
  return .op (f i r)

def onKey (f : Nat → Nat → String → Op) : Except Fault Instruction := do
  let (i, _) ← sc.heapNamed st.names
  let m ← sc.mapNamed st.names
  let key ← understood st.key
  return .op (f i m key)

def onRoots (f : Nat → HandleId → Op) : Except Fault Instruction := do
  let (_, c) ← sc.heapNamed st.names
  let handle ← sc.handleNamed st.names
  return .op (f c.heap.pins handle)

def onPins (f : Nat → HandleId → Op) : Except Fault Instruction := do
  let pins ← sc.pinsNamed st.names
  let handle ← sc.handleNamed st.names
  return .op (f pins handle)

def resolve : Except Fault Instruction :=
  match st.name with
  | "heap_new" => (heapConfig st).map fun config => .op (.newHeap config)
  | "heap_teardown" | "heap_drop" => sc.onHeap st fun i _ => .shutDown i
  | "alloc" => do
    let kind ← understood (st.kind.bind ObjectKind.ofName?)
    let (i, _) ← sc.heapNamed st.names
    return .op (.alloc i kind)
  | "retain" => sc.onObj st .retain
  | "release" => sc.onObj st .release
  | "collect" => sc.onHeap st fun i _ => .collect i
  | "trait_collect" => do
    let (i, _) ← sc.heapNamed st.names
    return .silent (.collect i)
  | "is_live" => sc.onObj st .isLive
  | "is_reachable" => sc.onObj st .isReachable
  | "kind" => sc.onObj st .kind
  | "pin" => sc.onRoots st .pin
  | "unpin" => sc.onRoots st .unpin
  | "is_pinned" => sc.onRoots st .isPinned
  | "define" => do
    let (i, _) ← sc.heapNamed st.names
    let obj ← sc.objNamed st.names
    let actions ← st.actions.mapM sc.resolveAction
    return .op (.define i obj st.label actions)
  | "script" => do
    let (i, _) ← sc.heapNamed st.names
    let directives ← understood (st.queue.mapM Directive.ofName?)
    return .op (.script i directives)
  | "fire" => sc.onHeap st fun i _ => .fire i st.position
  | "reach" => sc.onObj st fun i obj => .reach i obj st.answer
  | "rt_init" => (sc.runtimeNamed st.names).map fun x => .op (.initialized x)
  | "rt_teardown" => (sc.runtimeNamed st.names).map fun x => .op (.tornDown x)
  | "rt_alive" => (sc.runtimeNamed st.names).map fun x => .op (.isAlive x)
  | "alive_count" => .ok (.op .aliveCount)
  | "instance_next" => .ok (.op .nextRuntime)
  | "handle_next" => .ok (.op .nextHandle)
  | "ref_new" | "ref_default" => .ok (.op .newRef)
  | "ref_with" => sc.onObj st .newRefTo
  | "bind" => do
    let (i, _) ← sc.heapNamed st.names
    let (r, _) ← sc.refNamed st.names
    let obj ← sc.objNamed st.names
    return .op (.bind i r obj)
  | "read" => sc.onHeapRef st .read
  | "object" => sc.onHeapRef st .object
  | "update" => sc.onHeapRef st .refresh
  | "ref_define" => do
    let (i, _) ← sc.heapNamed st.names
    let (r, _) ← sc.refNamed st.names
    let actions ← st.actions.mapM sc.resolveAction
    return .op (.refDefine i r st.label actions)
  | "ref_release" => sc.onHeapRef st .releaseRef
  | "ref_info" => (sc.refNamed st.names).map fun r => .op (.inspect r.1)
  | "ref_drop" => (sc.refNamed st.names).map fun r => .op (.dropRef r.1)
  | "map_new" | "map_default" => .ok (.op .newMap)
  | "map_insert" => do
    let (i, _) ← sc.heapNamed st.names
    let m ← sc.mapNamed st.names
    let obj ← sc.objNamed st.names
    let key ← understood st.key
    return .op (.mapInsert i m key obj)
  | "map_get" => sc.onKey st .mapGet
  | "map_remove" => sc.onKey st .mapRemove
  | "map_update" => do
    let (i, _) ← sc.heapNamed st.names
    let m ← sc.mapNamed st.names
    return .op (.mapUpdate i m)
  | "map_len" => (sc.mapNamed st.names).map fun m => .op (.mapSize m)
  | "map_drop" => (sc.mapNamed st.names).map fun m => .op (.dropMap m)
  | "ps_new" => .ok (.op .newPinSet)
  | "ps_of" => (sc.heapNamed st.names).map fun h => .alias h.2.heap.pins
  | "ps_clone" => (sc.pinsNamed st.names).map .alias
  | "ps_pin" => sc.onPins st .pin
  | "ps_unpin" => sc.onPins st .unpin
  | "ps_contains" => sc.onPins st .isPinned
  | "ps_clear" => (sc.pinsNamed st.names).map fun p => .op (.clearPins p)
  | "ps_len" => (sc.pinsNamed st.names).map fun p => .op (.pinCount p)
  | "log_init" => .ok (.openLog (.ofEnvironment sc.env))
  | "log_init_with" => (logConfig st).map .openLog
  | "log_is_init" => .ok .isLogOpen
  | _ => .error .badStep

end Resolve

end Scene

end WeakRefs
