import WeakRefs.Proofs.Moves.ValueMap

/-!
# Every operation is a run of moves

`Session.Allows` lists what one operation may do beyond what every operation may do. An operation
that records no runtime as initialized or torn down is a run of strides.
-/

namespace WeakRefs

namespace Op

/-- The map that an operation works on. -/
def map? : Op → Option Nat
  | mapInsert _ m _ _ | mapGet _ m _ | mapRemove _ m _ | mapUpdate _ m => some m
  | _ => none

def setsPins : Op → Bool
  | pin _ _ | unpin _ _ | clearPins _ => true
  | _ => false

/-- Whether an operation interferes with the script of a collector. -/
def scripts (i : Nat) : Op → Bool
  | script j _ | reach j _ _ => j = i
  | _ => false

/-- The heap and the object that an operation binds a reference to, if it succeeds. -/
def target? : Op → Option (Nat × ObjectRef)
  | bind i _ obj | newRefTo i obj | mapInsert i _ _ obj => some (i, obj)
  | _ => none

/-- Whether an operation binds through this heap only. -/
def bindsThrough (i : Nat) (op : Op) : Bool := op.target?.all fun target => target.1 = i

def recordsRuntime : Op → Bool
  | newHeap _ | shutDown _ | initialized _ | tornDown _ => true
  | _ => false

/-- The user finalizer that an operation defines. -/
def defines? : Op → Option Finalizer
  | define _ _ label actions | refDefine _ _ label actions => some (.user label actions)
  | _ => none

end Op

namespace Session

def arrival? (s : Session) (op : Op) : Option Place :=
  match op, (s.perform op).2 with
  | .newRef, _ => some (.ref s.refs.size)
  | .newRefTo _ _, .identity _ => some (.ref s.refs.size)
  | .mapInsert _ m key _, .done => some (.entry m key)
  | _, _ => none

/-- The handle that an operation binds, and its target. -/
def boundBy? (s : Session) (op : Op) : Option (HandleId × ObjectRef) :=
  match op, (s.perform op).2 with
  | .bind _ r obj, .affiliation _ => (s.ref? r).map fun ref => (ref.id, obj)
  | .newRefTo _ obj, .identity _ => some (s.freshHandle.2, obj)
  | .mapInsert _ _ _ obj, .done => some (s.freshHandle.2, obj)
  | _, _ => none

/-- The tags of the moves that an operation may make. -/
inductive Allows (s : Session) (op : Op) : Tag → Prop where
  | always : Allows s op .free
  | hold : Allows s op (.touch .hand)
  | take : Allows s op (.arrive .hand)
  | ref (r : Nat) : Allows s op (.touch (.ref r))
  | entry {m : Nat} (key : String) : op.map? = some m → Allows s op (.touch (.entry m key))
  | thin {m : Nat} : op.map? = some m → Allows s op (.thin m)
  | arrive {p : Place} : s.arrival? op = some p → Allows s op (.arrive p)
  | bind {i : Nat} {h : HandleId} {t : ObjectRef} : s.boundBy? op = some (h, t) →
    op.target? = some (i, t) → Allows s op (.bind i h t)
  | fresh {i : Nat} {t : ObjectRef} : op.target? = some (i, t) →
    Allows s op (.bind i s.freshHandle.2 t)
  | report {m : Nat} (key : String) (handle : HandleId) : op.map? = some m →
    Allows s op (.define (.report m key handle))
  | user {f : Finalizer} : op.defines? = some f → Allows s op (.define f)
  | pins : op.setsPins = true → Allows s op .pins
  | script {i : Nat} : op.scripts i = true → Allows s op (.script i)
  | alloc {i : Nat} {kind : ObjectKind} : op = .alloc i kind → Allows s op .alloc
  | newHeap {config : HeapConfig} : op = .newHeap config → Allows s op .newHeap
  | shutDown {i : Nat} : op = .shutDown i → Allows s op (.shutDown i)
  | fall {i : Nat} (x : InstanceId) : op = .shutDown i → Allows s op (.tornDown x)
  | tornDown {x : InstanceId} : op = .tornDown x → Allows s op (.tornDown x)

variable {s : Session}

theorem modifyCollector_of_gone {i : Nat} (gone : s.collector? i = none)
    (f : Collector → Collector) : s.modifyCollector i f = s := by
  unfold modifyCollector
  congr 1
  apply Array.ext_getElem?
  intro j
  rw [Array.getElem?_modify]
  split
  · rename_i same
    subst same
    unfold collector? at gone
    cases slot : s.collectors[i]? with
    | none => rfl
    | some entry =>
      rw [slot] at gone
      cases entry with
      | none => rfl
      | some c => cases gone
  · rfl

theorem modifyCollector_strides {T : Tag → Prop} {i : Nat} (allowed : T (.script i))
    {f : Collector → Collector} (heap : ∀ c, (f c).heap = c.heap)
    (stash : ∀ c, (f c).stash = c.stash) :
    Strides T ⟨s, none, [], []⟩ ⟨s.modifyCollector i f, none, [], []⟩ := by
  cases here : s.collector? i with
  | none =>
    rw [modifyCollector_of_gone here]
    exact .refl
  | some c =>
    rw [s.modifyCollector_eq here]
    exact .quiet allowed (Move.script ⟨s, none, [], []⟩ here (heap c) (stash c))
      (.of_refs rfl rfl rfl)

theorem retain_strides {T : Tag → Prop} (free : T .free) (i : Nat) (r : ObjectRef) :
    Strides T ⟨s, none, [], []⟩ ⟨s.retain i r, none, [], []⟩ := by
  cases here : s.collector? i with
  | none =>
    unfold retain modifyHeap
    rw [modifyCollector_of_gone here]
    exact .refl
  | some c => exact upkeep_strides free none here (.retain r)

theorem withRef_of_ref? {r : Nat} {ref : WeakReference} (here : s.ref? r = some ref)
    (f : WeakReference → Session × Reply) : s.withRef r f = f ref := by
  unfold withRef
  rw [here]

theorem withRef_strides {T : Tag → Prop} {r : Nat} {f : WeakReference → Session × Reply}
    (strides : ∀ ref, s.ref? r = some ref → Strides T ⟨s, none, [], []⟩ ⟨(f ref).1, none, [], []⟩) :
    Strides T ⟨s, none, [], []⟩ ⟨(s.withRef r f).1, none, [], []⟩ := by
  unfold withRef
  split
  · rename_i ref here
    exact strides ref here
  · exact .refl

theorem bindRef_strides (i r : Nat) (obj : ObjectRef) (inside : ∀ ref b, s.ref? r = some ref →
    ref.binding = some b → b.cell < s.cells.size) :
    Strides (s.Allows (.bind i r obj)) ⟨s, none, [], []⟩
      ⟨(s.perform (.bind i r obj)).1, none, [], []⟩ := by
  refine withRef_strides fun ref here => ?_
  have free : s.Allows (.bind i r obj) .free := .always
  cases answer : (s.bind (.reference r) i ref obj).2.2 with
  | error e =>
    have failed := bind_failed_strides (T := s.Allows (.bind i r obj)) none free (.reference r)
      (inside ref · here) answer
    have still := ((stableView_held (.reference r)).bind s i ref obj).trans here
    unfold bindRef
    dsimp only
    rw [failed.2, setRef_self still]
    exact failed.1
  | ok a =>
    have reply : (s.perform (.bind i r obj)).2 = .affiliation a := by
      change (s.withRef r _).2 = _
      rw [withRef_of_ref? here]
      exact congrArg attachedReply answer
    have bound : s.boundBy? (.bind i r obj) = some (ref.id, obj) := by
      unfold boundBy?
      rw [reply]
      exact congrArg (Option.map fun ref => (ref.id, obj)) here
    exact bind_strides free (.reference r) (p := .ref r) here (fun _ _ other => nomatch other)
      (inside ref · here) (.ref r) answer (.bind bound rfl)

theorem overrule_keeps (c : Collector) (r : ObjectRef) (answer : Option Bool) :
    (c.overrule r answer).heap = c.heap ∧ (c.overrule r answer).stash = c.stash := by
  cases answer <;> exact ⟨rfl, rfl⟩

theorem perform_strides (op : Op) (plain : op.recordsRuntime = false)
    (inside : ∀ r ref b, s.ref? r = some ref → ref.binding = some b → b.cell < s.cells.size) :
    Strides (s.Allows op) ⟨s, none, [], []⟩ ⟨(s.perform op).1, none, [], []⟩ := by
  have free : s.Allows op .free := .always
  have touches : ∀ r, s.Allows op (.touch (.ref r)) := .ref
  cases op with
  | newHeap config => cases plain
  | shutDown i => cases plain
  | alloc i kind =>
    have allocated := alloc_strides (s := s) (i := i) none (T := s.Allows (.alloc i kind))
      (.alloc rfl) kind
    unfold perform
    dsimp only
    split
    · exact allocated
    · exact allocated
  | retain i obj => exact retain_strides free i obj
  | release i obj => exact releaseRoot_strides free touches none obj
  | collect i => exact collect_strides free touches none .idle
  | isLive i obj => exact .refl
  | isReachable i obj => exact .refl
  | kind i obj => exact .refl
  | define i obj label actions =>
    exact define_strides free touches none .idle obj (.user rfl) trivial
  | script i directives =>
    exact modifyCollector_strides (.script (decide_eq_true rfl)) (fun _ => rfl) fun _ => rfl
  | fire i position => exact fireStashed_strides free touches none position
  | reach i obj answer =>
    exact modifyCollector_strides (.script (decide_eq_true rfl))
      (fun c => (overrule_keeps c obj answer).1)
      fun c => (overrule_keeps c obj answer).2
  | initialized x => cases plain
  | tornDown x => cases plain
  | isAlive x => exact .refl
  | aliveCount => exact .refl
  | nextRuntime => exact .quiet free (Move.freshRuntime ⟨s, none, [], []⟩) (.of_refs rfl rfl rfl)
  | nextHandle => exact .quiet free (Move.freshHandle ⟨s, none, [], []⟩) (.of_refs rfl rfl rfl)
  | newRef =>
    exact .quiet (.arrive rfl) (Move.newRef ⟨s, none, [], []⟩)
      ⟨rfl, rfl, (Quiet.addRef s none [] [] _ none).kept⟩
  | newRefTo i obj =>
    refine addRefTo_strides free .hold .take obj (.fresh rfl) fun ref made => .arrive ?_
    have answer : (s.perform (.newRefTo i obj)).2 = .identity ref.id.raw := by
      change (s.addRefTo i obj).2 = _
      unfold addRefTo
      dsimp only
      rw [made]
    unfold arrival?
    rw [answer]
  | bind i r obj => exact bindRef_strides i r obj (inside r)
  | read i r => exact withRef_strides fun ref here => read_strides (p := .ref r) (touches r) here
  | object i r =>
    exact withRef_strides fun ref here => object_strides (touches r) free touches
      (.reference r) here
  | refresh i r => exact withRef_strides fun ref here => refresh_strides free touches none _ ref
  | refDefine i r label actions =>
    exact withRef_strides fun ref here =>
      defineOn_strides (touches r) free touches (.reference r) here (.user rfl)
  | releaseRef i r =>
    change Strides _ _ ⟨((s.pinsOf i).map fun roots => s.releaseRef roots r).getD s, none, [], []⟩
    unfold pinsOf
    cases here : s.collector? i with
    | none => exact .refl
    | some c => exact releaseRef_strides here none [] [] r (touches r)
  | inspect r => exact withRef_strides fun _ _ => .refl
  | dropRef r => exact dropRef_strides none [] [] r (touches r)
  | newMap => exact .quiet free (Move.newMap ⟨s, none, [], []⟩) (.of_refs rfl rfl rfl)
  | mapInsert i m key obj =>
    have inserted : Strides (s.Allows (.mapInsert i m key obj)) ⟨s, none, [], []⟩
        ⟨(s.mapInsert i m key obj).1, none, [], []⟩ :=
          mapInsert_strides free touches .hold .take obj (.fresh rfl) (.report key _ rfl)
      fun done => ⟨.entry key rfl, .arrive (by
        have answer : (s.perform (.mapInsert i m key obj)).2 = .done := by
          unfold perform
          dsimp only
          rw [done]
        unfold arrival?
        rw [answer])⟩
    unfold perform
    dsimp only
    split
    · exact inserted
    · exact inserted
  | mapGet i m key => exact mapGet_strides free touches (.entry key rfl)
  | mapRemove i m key => exact mapRemove_strides free (.entry key rfl) (.thin rfl)
  | mapUpdate i m => exact mapUpdate_strides free (fun key => .entry key rfl) (.thin rfl)
  | mapSize m => exact .refl
  | dropMap m => exact dropMap_strides free none [] [] m
  | newPinSet => exact .quiet free (Move.newPinSet ⟨s, none, [], []⟩) (.of_refs rfl rfl rfl)
  | pin pins handle =>
    exact .quiet (.pins rfl) (Move.modifyPins ⟨s, none, [], []⟩ pins _) (.of_refs rfl rfl rfl)
  | unpin pins handle =>
    exact .quiet (.pins rfl) (Move.modifyPins ⟨s, none, [], []⟩ pins _) (.of_refs rfl rfl rfl)
  | isPinned pins handle => exact .refl
  | clearPins pins =>
    exact .quiet (.pins rfl) (Move.modifyPins ⟨s, none, [], []⟩ pins _) (.of_refs rfl rfl rfl)
  | pinCount pins => exact .refl

theorem perform_moves (op : Op) (inside : ∀ r ref b, s.ref? r = some ref →
    ref.binding = some b → b.cell < s.cells.size) :
    Moves (s.Allows op) ⟨s, none, [], []⟩ ⟨(s.perform op).1, none, [], []⟩ := by
  cases plain : op.recordsRuntime with
  | false => exact (perform_strides op plain inside).moves
  | true =>
    cases op with
    | newHeap config => exact .single (.newHeap rfl) (Move.newHeap ⟨s, none, [], []⟩ config)
    | shutDown i => exact shutDown_moves .always .ref none (.shutDown rfl) fun x => .fall x rfl
    | initialized x => exact .single .always (Move.initialized ⟨s, none, [], []⟩ x)
    | tornDown x => exact .single (.tornDown rfl) (Move.tornDown ⟨s, none, [], []⟩ x)
    | _ => cases plain

end Session

end WeakRefs
