import WeakRefs.Heap.Object
import WeakRefs.Identity

/-!
# Events

An event fixes its level, its target path, its message and its named fields; where and whether it is
written is decided by the log.
-/

namespace WeakRefs

inductive Level where
  | trace
  | debug
  | info
  | warn
  | error
  deriving DecidableEq

namespace Level

def name : Level → String
  | .trace => "TRACE"
  | .debug => "DEBUG"
  | .info => "INFO"
  | .warn => "WARN"
  | .error => "ERROR"

def verbosity : Level → Nat
  | .error => 1
  | .warn => 2
  | .info => 3
  | .debug => 4
  | .trace => 5

def ofWord? (word : String) : Option Level :=
  match word.toLower with
  | "trace" => some .trace
  | "debug" => some .debug
  | "info" => some .info
  | "warn" => some .warn
  | "error" => some .error
  | _ => none

end Level

inductive FieldValue where
  | number (n : Nat)
  | word (w : String)
  | text (t : String)
  deriving DecidableEq

inductive Event where
  | runtimeInitialized (runtime : InstanceId)
  | runtimeTornDown (runtime : InstanceId)
  | bound (handle : HandleId) (affiliation : Affiliation)
  | notFinalizable (handle : HandleId) (typeName : String)
  | clearedByFinalizer (handle : HandleId)
  | clearedOnRead (handle : HandleId)
  | disarmed (handle : HandleId)
  | pruned (entries : Nat)
  | swept (entries : Nat)
  | reclaimed (index finalizers : Nat)
  /-- The duration in microseconds is a field only where it was measured. -/
  | collected (micros : Option Nat) (dead live : Nat)
  | discarded (finalizers : Nat)
  deriving DecidableEq

namespace Event

def level : Event → Level
  | runtimeInitialized _ | runtimeTornDown _ => .info
  | bound _ _ | notFinalizable _ _ | clearedOnRead _ | collected _ _ _ | discarded _ => .debug
  | clearedByFinalizer _ | disarmed _ | pruned _ | swept _ | reclaimed _ _ => .trace

def target : Event → String
  | runtimeInitialized _ | runtimeTornDown _ => "gcref::liveness"
  | reclaimed _ _ | collected _ _ _ | discarded _ => "gcref::heap"
  | bound _ _ | notFinalizable _ _ | clearedByFinalizer _ | clearedOnRead _ | disarmed _
  | pruned _ | swept _ => "gcref::weak"

def message : Event → String
  | runtimeInitialized _ => "runtime initialized"
  | runtimeTornDown _ => "runtime torn down"
  | bound _ _ => "weak reference bound"
  | notFinalizable _ _ => "target is not finalizable"
  | clearedByFinalizer _ => "slot cleared by finalizer"
  | clearedOnRead _ => "target dead before finalizer delivery, slot cleared on read"
  | disarmed _ => "previous binding disarmed"
  | pruned _ => "expired map entries removed"
  | swept _ => "unreachable map entries removed"
  | reclaimed _ _ => "object reclaimed"
  | collected _ _ _ => "collection complete"
  | discarded _ => "discarding pending finalizers"

def fields : Event → List (String × FieldValue)
  | runtimeInitialized runtime | runtimeTornDown runtime => [("instance", .number runtime.raw)]
  | bound handle affiliation =>
    [("handle", .number handle.raw), ("affiliation", .word affiliation.name)]
  | notFinalizable handle typeName =>
    [("handle", .number handle.raw), ("type_name", .text typeName)]
  | clearedByFinalizer handle | clearedOnRead handle | disarmed handle =>
    [("handle", .number handle.raw)]
  | pruned entries => [("pruned", .number entries)]
  | swept entries => [("swept", .number entries)]
  | reclaimed index finalizers => [("index", .number index), ("finalizers", .number finalizers)]
  | collected micros dead live =>
    (micros.map fun d => ("duration_us", FieldValue.number d)).toList ++
      [("collected", .number dead), ("live", .number live)]
  | discarded finalizers => [("dropped", .number finalizers)]

/-- The names of what an event carries, for filters: the message counts, and the duration of a
collection does so whether it was measured or not. -/
def names (e : Event) : List String :=
  match e with
  | collected _ _ _ => ["message", "duration_us", "collected", "live"]
  | e => "message" :: e.fields.map Prod.fst

def handle? : Event → Option HandleId
  | bound handle _ | notFinalizable handle _ | clearedByFinalizer handle | clearedOnRead handle
  | disarmed handle => some handle
  | _ => none

def comesBefore (a b : Event) : Bool :=
  if a.message = b.message then
    match a.handle?, b.handle? with
    | none, _ => true
    | some _, none => false
    | some x, some y => x.raw ≤ y.raw
  else a.message < b.message

def arranged (events : List Event) : List Event := events.mergeSort comesBefore

end Event

end WeakRefs
