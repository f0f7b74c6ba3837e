import WeakRefs.Proofs.Ownership
import WeakRefs.Proofs.HeapSteps.Operations

/-!
# Every finalizer runs once

What a heap without a script owes after a run is told by the run alone: `outstanding` adds what each
operation has accepted and takes off what is not live after it. Just what is taken off runs.
-/

namespace WeakRefs

theorem Heap.stats_alloc {φ : Type} {h heap : Heap φ} {kind : ObjectKind} {r : ObjectRef}
    (allocated : h.alloc kind = .ok (heap, r)) : heap.stats = h.stats := by
  obtain ⟨slots, free, same⟩ := alloc_eq allocated
  rw [same]

namespace Op

/-- The heap that an operation works on. -/
def heap? : Op → Option Nat
  | shutDown i | alloc i _ | retain i _ | release i _ | collect i | isLive i _ | isReachable i _
  | kind i _ | define i _ _ _ | script i _ | fire i _ | reach i _ _ | newRefTo i _ | bind i _ _
  | read i _ | object i _ | refresh i _ | refDefine i _ _ _ | releaseRef i _ | mapInsert i _ _ _
  | mapGet i _ _ | mapRemove i _ _ | mapUpdate i _ => some i
  | _ => none

end Op

namespace Session

/-- The definitions that an operation makes and that succeed, with their targets. -/
def accepted (s : Session) : Op → List (ObjectRef × Finalizer)
  | .define i obj label actions =>
    granted (obj, .user label actions) (s.define .idle i obj (.user label actions)).2
  | .newRefTo i obj =>
    granted (obj, .endBinding s.cells.size s.freshHandle.2) (s.bindNew .idle i obj).2
  | .bind i r obj => (s.ref? r).toList.flatMap fun ref =>
    granted (obj, .endBinding s.cells.size ref.id) (s.bind (.reference r) i ref obj).2.2
  | .refDefine i r label actions => (s.ref? r).toList.flatMap fun ref =>
    (s.object (.reference r) i ref).2.toList.flatMap fun target =>
      granted (target, .user label actions)
        (s.defineOn (.reference r) i ref (.user label actions)).2
  | .mapInsert i m key obj => s.acceptedByInsert i m key obj
  | _ => []

/-- The definitions that heap `i` accepts in an operation. -/
def acceptedBy (s : Session) (i : Nat) (op : Op) : List (ObjectRef × Finalizer) :=
  if op.heap? = some i then s.accepted op else []

/-- The finalizers that run in an operation on heap `i`. -/
def ranBy (s : Session) (i : Nat) (op : Op) : List Finalizer :=
  if op.heap? = some i then (s.perform op).1.runs.toList.drop s.runs.size else []

/-- What is owed after an operation: the targets are live still. -/
def owedAfter (s : Session) (i : Nat) (owed : List (ObjectRef × Finalizer)) (op : Op) :
    List (ObjectRef × Finalizer) :=
  (owed ++ s.acceptedBy i op).filter fun d => (s.perform op).1.isLiveIn i d.1

/-- What falls due in an operation: the targets are not live after it. -/
def dueIn (s : Session) (i : Nat) (owed : List (ObjectRef × Finalizer)) (op : Op) :
    List (ObjectRef × Finalizer) :=
  (owed ++ s.acceptedBy i op).filter fun d => !(s.perform op).1.isLiveIn i d.1

/-- What heap `i` owes after a run. -/
def outstanding (i : Nat) (s : Session) (owed : List (ObjectRef × Finalizer)) :
    List Op → List (ObjectRef × Finalizer)
  | [] => owed
  | op :: rest => outstanding i (s.perform op).1 (s.owedAfter i owed op) rest

/-- All definitions that heap `i` accepts in a run. -/
def definitions (i : Nat) (s : Session) : List Op → List (ObjectRef × Finalizer)
  | [] => []
  | op :: rest => s.acceptedBy i op ++ definitions i (s.perform op).1 rest

/-- All finalizers that run in operations on heap `i`. -/
def deliveriesBy (i : Nat) (s : Session) : List Op → List Finalizer
  | [] => []
  | op :: rest => s.ranBy i op ++ deliveriesBy i (s.perform op).1 rest

variable {s : Session} {i : Nat} {c : Collector}

section Perform

theorem leavesHeaps_recordTornDown (s : Session) (x : InstanceId) :
    LeavesHeaps s (s.recordTornDown x) := by
  unfold recordTornDown
  split <;> exact ⟨rfl, rfl⟩

theorem perform_leavesHeaps {op : Op} (idle : op.heap? = none)
    (old : ∀ config, op ≠ .newHeap config) :
    LeavesHeaps s (s.perform op).1 := by
  cases op with
  | newHeap config => exact absurd rfl (old config)
  | initialized x => exact ⟨rfl, rfl⟩
  | tornDown x => exact leavesHeaps_recordTornDown s x
  | isAlive x => exact .refl s
  | aliveCount => exact .refl s
  | nextRuntime => exact ⟨rfl, rfl⟩
  | nextHandle => exact ⟨rfl, rfl⟩
  | newRef => exact ⟨rfl, rfl⟩
  | inspect r =>
    change LeavesHeaps s (s.withRef r _).1
    unfold withRef
    split <;> exact .refl s
  | dropRef r => exact .dropRef s r
  | newMap => exact ⟨rfl, rfl⟩
  | mapSize m => exact .refl s
  | dropMap m => exact .dropMap s m
  | newPinSet => exact ⟨rfl, rfl⟩
  | pin pins handle => exact ⟨rfl, rfl⟩
  | unpin pins handle => exact ⟨rfl, rfl⟩
  | isPinned pins handle => exact .refl s
  | clearPins pins => exact ⟨rfl, rfl⟩
  | pinCount pins => exact .refl s
  | _ => cases idle

theorem withRef_heapSteps {r : Nat} {f : WeakReference → Session × Reply}
    {accepted : WeakReference → List (ObjectRef × Finalizer)}
    (served : ∀ ref, ∃ ran, HeapSteps i (accepted ref) ran s (f ref).1) :
    ∃ ran, HeapSteps i ((s.ref? r).toList.flatMap accepted) ran s (s.withRef r f).1 := by
  unfold withRef
  cases s.ref? r with
  | none => exact ⟨[], .leaves (.refl s)⟩
  | some ref =>
    rw [Option.toList_some, List.flatMap_singleton]
    exact served ref

theorem withRef_heapSteps_nil {r : Nat} {f : WeakReference → Session × Reply}
    (served : ∀ ref, ∃ ran, HeapSteps i [] ran s (f ref).1) :
    ∃ ran, HeapSteps i [] ran s (s.withRef r f).1 := by
  unfold withRef
  cases s.ref? r with
  | none => exact ⟨[], .leaves (.refl s)⟩
  | some ref => exact served ref

theorem perform_heapSteps {op : Op} (work : op.heap? = some i) (calm : op ≠ .shutDown i)
    (noNewSlots : ∀ kind, op ≠ .alloc i kind) (unscripted : op.scripts i = false) :
    ∃ ran, HeapSteps i (s.accepted op) ran s (s.perform op).1 := by
  have nothing {op : Op} (same : (s.perform op).1 = s) (none_accepted : s.accepted op = []) :
      ∃ ran, HeapSteps i (s.accepted op) ran s (s.perform op).1 := by
    rw [same, none_accepted]
    exact ⟨[], .leaves (.refl s)⟩
  cases op with
  | shutDown j =>
    cases work
    exact absurd rfl calm
  | alloc j kind =>
    cases work
    exact absurd rfl (noNewSlots kind)
  | retain j obj =>
    cases work
    exact ⟨[], retain_heapSteps obj⟩
  | release j obj =>
    cases work
    exact releaseRoot_heapSteps obj
  | collect j =>
    cases work
    exact collect_heapSteps .idle
  | isLive j obj => exact nothing rfl rfl
  | isReachable j obj => exact nothing rfl rfl
  | kind j obj => exact nothing rfl rfl
  | define j obj label actions =>
    cases work
    exact define_heapSteps .idle obj (.user label actions)
  | script j directives =>
    cases work
    exact absurd unscripted (by simp [Op.scripts])
  | fire j position =>
    cases work
    exact fireStashed_heapSteps position
  | reach j obj answer =>
    cases work
    exact absurd unscripted (by simp [Op.scripts])
  | newRefTo j obj =>
    cases work
    exact addRefTo_heapSteps obj
  | bind j r obj =>
    cases work
    refine withRef_heapSteps fun ref => ?_
    obtain ⟨ran, bound⟩ := bind_heapSteps (s := s) (i := i) (.reference r) ref obj
    have written : LeavesHeaps (s.bind (.reference r) i ref obj).1 (s.bindRef i r ref obj).1 :=
      ⟨rfl, rfl⟩
    have both := bound.trans (.leaves written)
    rw [List.append_nil, List.append_nil] at both
    exact ⟨ran, both⟩
  | read j r =>
    exact withRef_heapSteps_nil fun ref => ⟨[], .leaves (leavesHeaps_read s j ref)⟩
  | object j r =>
    cases work
    exact withRef_heapSteps_nil fun ref => object_heapSteps (.reference r) ref
  | refresh j r =>
    cases work
    exact withRef_heapSteps_nil fun ref => refresh_heapSteps (.reference r) ref
  | refDefine j r label actions =>
    cases work
    exact withRef_heapSteps fun ref => defineOn_heapSteps (.reference r) ref (.user label actions)
  | releaseRef j r =>
    change ∃ ran, HeapSteps i [] ran s (((s.pinsOf j).map fun roots => s.releaseRef roots r).getD s)
    cases s.pinsOf j with
    | none => exact ⟨[], .leaves (.refl s)⟩
    | some roots => exact ⟨[], .leaves (.releaseRef s roots r)⟩
  | mapInsert j m key obj =>
    cases work
    obtain ⟨ran, inserted⟩ := mapInsert_heapSteps (s := s) (i := i) m key obj
    have session : (s.perform (.mapInsert i m key obj)).1 = (s.mapInsert i m key obj).1 := by
      unfold perform
      dsimp only
      cases (s.mapInsert i m key obj).2 <;> rfl
    rw [session]
    exact ⟨ran, inserted⟩
  | mapGet j m key =>
    cases work
    exact mapGet_heapSteps m key
  | mapRemove j m key => exact ⟨[], .leaves (leavesHeaps_mapRemove s j m key)⟩
  | mapUpdate j m => exact ⟨[], .leaves (leavesHeaps_mapUpdate s j m)⟩
  | _ => cases work

theorem perform_alloc_of_gone (gone : s.collector? i = none) (kind : ObjectKind) :
    s.perform (.alloc i kind) = (s, .failed .heapExhausted) := by
  have failed : s.alloc i kind = (s, .error .heapExhausted) := by
    unfold alloc
    rw [gone]
  unfold perform
  dsimp only
  rw [failed]

theorem perform_alloc_of_ok (here : s.collector? i = some c) {kind : ObjectKind}
    {heap : Heap Finalizer} {r : ObjectRef} (allocated : c.heap.alloc kind = .ok (heap, r)) :
    s.perform (.alloc i kind) = (s.setCollector i { c with heap }, .object (some r)) := by
  have made : s.alloc i kind = (s.setCollector i { c with heap }, .ok r) := by
    unfold alloc
    rw [here]
    dsimp only
    rw [allocated]
    dsimp only
    rw [modifyHeap_eq here]
  unfold perform
  dsimp only
  rw [made]

theorem perform_alloc_of_error (here : s.collector? i = some c) {kind : ObjectKind} {e : RefError}
    (failed : c.heap.alloc kind = .error e) : s.perform (.alloc i kind) = (s, .failed e) := by
  have made : s.alloc i kind = (s, .error e) := by
    unfold alloc
    rw [here]
    dsimp only
    rw [failed]
  unfold perform
  dsimp only
  rw [made]

theorem perform_alloc_cases (here : s.collector? i = some c) (kind : ObjectKind) :
    (∃ heap r, c.heap.alloc kind = .ok (heap, r) ∧
      s.perform (.alloc i kind) = (s.setCollector i { c with heap }, .object (some r))) ∨
    ∃ e, s.perform (.alloc i kind) = (s, .failed e) := by
  cases allocated : c.heap.alloc kind with
  | ok made => exact Or.inl ⟨made.1, made.2, rfl, perform_alloc_of_ok here allocated⟩
  | error e => exact Or.inr ⟨e, perform_alloc_of_error here allocated⟩

theorem collector?_shutDownIn (s : Session) (i : Nat) (heap : Heap Finalizer)
    (groups : List (ObjectRef × List Finalizer)) (j : Nat) :
    (s.shutDownIn i heap groups).collector? j = if j = i then none else s.collector? j := by
  have collectors (t : Session) (others : ∀ j, j ≠ i → t.collector? j = s.collector? j) :
      ({ t.clearPins heap.pins with collectors := t.collectors.setIfInBounds i none } :
        Session).collector? j = if j = i then none else s.collector? j := by
    unfold collector?
    rw [Array.getElem?_setIfInBounds]
    split
    · rename_i same
      rw [if_pos same.symm]
      split <;> rfl
    · rename_i other
      rw [if_neg fun same => other same.symm]
      exact others j fun same => other same.symm
  have tornDown (j : Nat) := collector?_congr (leavesHeaps_recordTornDown s heap.runtime).collectors
    j
  unfold shutDownIn
  dsimp only
  cases heap.config.teardown with
  | fire =>
    refine collectors _ fun j other => ?_
    rw [collector?_congr (collectors_deliverAll _ _ _ _), collector?_modifyHeap_of_ne other]
    exact tornDown j
  | drop => exact collectors _ fun j _ => tornDown j

theorem runs_shutDownIn (s : Session) (i : Nat) (heap : Heap Finalizer)
    (groups : List (ObjectRef × List Finalizer)) : (s.shutDownIn i heap groups).runs =
      match heap.config.teardown with
      | .fire => s.runs ++ (heap.pendingDirect ++ groups.flatMap Prod.snd).toArray
      | .drop => s.runs := by
  have tornDown := (leavesHeaps_recordTornDown s heap.runtime).runs
  unfold shutDownIn
  dsimp only
  cases heap.config.teardown with
  | fire =>
    refine (runs_deliverAll _ _ _ _).trans ?_
    exact congrArg (· ++ _) tornDown
  | drop => exact tornDown

theorem shutDown_eq (here : s.collector? i = some c) :
    s.shutDown i = s.shutDownIn i c.heap c.heap.pendingIndirect := by
  unfold shutDown
  rw [here]

theorem collector?_shutDown (s : Session) (i j : Nat) :
    (s.shutDown i).collector? j = if j = i then none else s.collector? j := by
  cases here : s.collector? i with
  | none =>
    have nothing : s.shutDown i = s := by
      unfold shutDown
      rw [here]
    rw [nothing]
    by_cases same : j = i
    · rw [if_pos same, same]
      exact here
    · rw [if_neg same]
  | some c =>
    rw [shutDown_eq here]
    exact collector?_shutDownIn s i _ _ j

theorem perform_script {op : Op} (scripted : op.scripts i = true) :
    ∃ f, (s.perform op).1 = s.modifyCollector i f := by
  cases op with
  | script j directives =>
    rw [← of_decide_eq_true scripted]
    exact ⟨_, rfl⟩
  | reach j obj answer =>
    rw [← of_decide_eq_true scripted]
    exact ⟨_, rfl⟩
  | _ => cases scripted

theorem collector?_perform_of_ne {op : Op} (other : op.heap? ≠ some i)
    (old : ∀ config, op = .newHeap config → i ≠ s.collectors.size) :
    (s.perform op).1.collector? i = s.collector? i := by
  cases work : op.heap? with
  | none =>
    by_cases new : ∃ config, op = .newHeap config
    · obtain ⟨config, new⟩ := new
      rw [new]
      change (s.newHeap config).1.collector? i = _
      rw [collector?_newHeap, if_neg (old config new)]
    · have kept : ∀ config, op ≠ .newHeap config := fun config same => new ⟨config, same⟩
      exact collector?_congr (perform_leavesHeaps work kept).collectors i
  | some j =>
    have apart : i ≠ j := by
      intro same
      rw [work, same] at other
      exact other rfl
    by_cases calm : op = .shutDown j
    · rw [calm]
      exact (collector?_shutDown s j i).trans (if_neg apart)
    by_cases allocates : ∃ kind, op = .alloc j kind
    · obtain ⟨kind, allocates⟩ := allocates
      rw [allocates]
      cases there : s.collector? j with
      | none => rw [perform_alloc_of_gone there]
      | some d =>
        rcases perform_alloc_cases there kind with ⟨heap, r, _, done⟩ | ⟨e, failed⟩
        · rw [done]
          exact (s.collector?_setCollector there _ i).trans (if_neg apart)
        · rw [failed]
    have noNewSlots : ∀ kind, op ≠ .alloc j kind := fun kind same => allocates ⟨kind, same⟩
    cases unscripted : op.scripts j with
    | false =>
      obtain ⟨ran, served⟩ := perform_heapSteps (s := s) work calm noNewSlots unscripted
      exact served.elsewhere apart
    | true =>
      obtain ⟨f, same⟩ := perform_script (s := s) unscripted
      rw [same, collector?_modifyCollector, if_neg fun same => apart same.symm]

theorem perform_of_gone {op : Op} (gone : s.collector? i = none) (work : op.heap? = some i)
    (unscripted : op.scripts i = false) : s.accepted op = [] ∧ LeavesHeaps s (s.perform op).1 := by
  by_cases calm : op = .shutDown i
  · rw [calm]
    refine ⟨rfl, ?_⟩
    change LeavesHeaps s (s.shutDown i)
    unfold shutDown
    rw [gone]
    exact .refl s
  by_cases allocates : ∃ kind, op = .alloc i kind
  · obtain ⟨kind, allocates⟩ := allocates
    rw [allocates, perform_alloc_of_gone gone]
    exact ⟨rfl, .refl s⟩
  have noNewSlots : ∀ kind, op ≠ .alloc i kind := fun kind same => allocates ⟨kind, same⟩
  obtain ⟨ran, served⟩ := perform_heapSteps (s := s) work calm noNewSlots unscripted
  obtain ⟨none_accepted, _, leaves⟩ := served.absent gone
  exact ⟨none_accepted, leaves⟩

theorem ranBy_of_runs {op : Op} (work : op.heap? = some i) {due : List Finalizer}
    (runs : (s.perform op).1.runs = s.runs ++ due.toArray) : s.ranBy i op = due := by
  rw [ranBy, if_pos work, runs]
  simp

theorem size_collectors_perform (ownership : Ownership ⟨s, none, [], []⟩) (op : Op) :
    s.collectors.size ≤ (s.perform op).1.collectors.size :=
  (perform_moves_of_ownership ownership op).preserves
    (I := fun m => s.collectors.size ≤ m.session.collectors.size)
    (fun _ move before => Nat.le_trans before move.evolves.size_le) (Nat.le_refl _)

end Perform

/-- What a heap owes it keeps, and what it has accepted has run once or is owed. -/
structure HeapBalance (owed defined : List (ObjectRef × Finalizer)) (ran : List Finalizer)
    (c : Collector) : Prop where
  plain : c.IsPlain
  sound : c.heap.Sound
  owes : c.heap.Owes owed
  once : (defined.map Prod.snd).Perm (ran ++ owed.map Prod.snd)
  counted : ran.length = c.heap.stats.finalizersRun

namespace HeapBalance
variable {owed defined accepted : List (ObjectRef × Finalizer)} {ran : List Finalizer}
variable {c c' : Collector}

theorem balance (heapBalance : HeapBalance owed defined ran c) :
    defined.length = c.heap.stats.finalizersRun + c.heap.pendingCount := by
  have length := heapBalance.once.length_eq
  rw [List.length_map, List.length_append, List.length_map] at length
  rw [length, heapBalance.counted, heapBalance.owes.pendingCount heapBalance.sound]

theorem carry (heapBalance : HeapBalance owed defined ran c) {fell : List (ObjectRef × Finalizer)}
    (account : StepAccount owed accepted fell c c') :
    HeapBalance ((owed ++ accepted).filter fun d => c'.heap.isLive d.1) (defined ++ accepted)
      (ran ++ fell.map Prod.snd) c' where
  plain := account.plain
  sound := account.sound
  owes := account.owes
  once := by
    have split := (filter_perm_append (fun d => c'.heap.isLive d.1) (owed ++ accepted)).map Prod.snd
    rw [List.map_append, List.map_append] at split
    have due : ((owed.map Prod.snd) ++ accepted.map Prod.snd).Perm (fell.map Prod.snd ++
        ((owed ++ accepted).filter fun d => c'.heap.isLive d.1).map Prod.snd) :=
      split.trans (List.perm_append_comm.trans ((account.fell.map Prod.snd).symm.append_right _))
    have before := heapBalance.once.append_right (accepted.map Prod.snd)
    rw [List.append_assoc] at before
    rw [List.map_append, List.append_assoc]
    exact before.trans (due.append_left ran)
  counted := by
    rw [List.length_append, List.length_map, account.counted, heapBalance.counted]

theorem opened (runtime : InstanceId) (config : HeapConfig) (pins : Nat) :
    HeapBalance [] [] [] { heap := { runtime, config, pins } } where
  plain := ⟨rfl, rfl, rfl⟩
  sound := .empty
  owes r := by simp [Heap.pendingOf, Heap.object?]
  once := .refl _
  counted := rfl

theorem allocates (heapBalance : HeapBalance owed defined ran c) {heap : Heap Finalizer}
    {kind : ObjectKind} {r : ObjectRef} (allocated : c.heap.alloc kind = .ok (heap, r)) :
    HeapBalance owed defined ran { c with heap } where
  plain := ⟨heapBalance.plain.script, heapBalance.plain.stash, heapBalance.plain.reach⟩
  sound := heapBalance.sound.alloc allocated
  owes := heapBalance.owes.congr (Heap.pendingOf_alloc heapBalance.sound allocated)
  once := heapBalance.once
  counted := by rw [Heap.stats_alloc allocated, heapBalance.counted]

theorem rests {s : Session} {i : Nat} {op : Op} (heapBalance : HeapBalance owed defined ran c)
    (there : (s.perform op).1.collector? i = some c) (none_accepted : s.acceptedBy i op = []) :
    s.owedAfter i owed op = owed ∧ s.dueIn i owed op = [] := by
  unfold owedAfter dueIn
  simp only [none_accepted, List.append_nil, isLiveIn_eq there]
  exact ⟨heapBalance.owes.filter_isLive heapBalance.sound, heapBalance.owes.filter_dead
    heapBalance.sound⟩

end HeapBalance

/-- What an operation on heap `i` does: what falls due in it runs, and no other finalizer. An
allocation apart, it is a course of steps in which no finalizer runs while its target is live. -/
structure OperationRuns (i : Nat) (s : Session) (op : Op)
    (owed ran : List (ObjectRef × Finalizer)) :
    Prop where
  due : ran.Perm (s.dueIn i owed op)
  runs : (s.perform op).1.runs = s.runs ++ (ran.map Prod.snd).toArray
  course : (∃ kind, op = .alloc i kind ∧ ran = []) ∨
    HeapSteps i (s.accepted op) ran s (s.perform op).1

section Turns
variable {owed defined : List (ObjectRef × Finalizer)} {ran : List Finalizer} {op : Op}

theorem HeapBalance.opRuns (heapBalance : HeapBalance owed defined ran c)
    (here : s.collector? i = some c)
    (work : op.heap? = some i) (calm : op ≠ .shutDown i) (unscripted : op.scripts i = false) :
    ∃ fell c', OperationRuns i s op owed fell ∧ (s.perform op).1.collector? i = some c' ∧
      HeapBalance (s.owedAfter i owed op) (defined ++ s.acceptedBy i op) (ran ++ fell.map Prod.snd)
        c' := by
  have mine : s.acceptedBy i op = s.accepted op := if_pos work
  by_cases allocates : ∃ kind, op = .alloc i kind
  · obtain ⟨kind, same⟩ := allocates
    have none_accepted : s.acceptedBy i op = [] := by
      rw [mine, same]
      rfl
    have rests {c' : Collector} (heapBalance : HeapBalance owed defined ran c')
        (there : (s.perform op).1.collector? i = some c')
        (runs : (s.perform op).1.runs = s.runs) :
        ∃ fell c', OperationRuns i s op owed fell ∧ (s.perform op).1.collector? i = some c' ∧
          HeapBalance (s.owedAfter i owed op) (defined ++ s.acceptedBy i op)
            (ran ++ fell.map Prod.snd) c' := by
      have still := heapBalance.rests there none_accepted
      refine ⟨[], c', ⟨?_, by simp [runs], Or.inl ⟨kind, same, rfl⟩⟩, there, ?_⟩
      · rw [still.2]
      · rw [still.1, none_accepted, List.append_nil, List.map_nil, List.append_nil]
        exact heapBalance
    rcases perform_alloc_cases here kind with ⟨heap, r, allocated, done⟩ | ⟨e, failed⟩
    · apply rests (heapBalance.allocates allocated)
      · rw [same, done]
        exact collector?_setCollector_self here _
      · rw [same, done]
        rfl
    · apply rests heapBalance
      · rw [same, failed]
        exact here
      · rw [same, failed]
  · have noNewSlots : ∀ kind, op ≠ .alloc i kind := fun kind same => allocates ⟨kind, same⟩
    obtain ⟨fell, served⟩ := perform_heapSteps (s := s) work calm noNewSlots unscripted
    obtain ⟨runs, c', there, account⟩ := served.account here heapBalance.plain heapBalance.sound
      heapBalance.owes
    refine ⟨fell, c', ⟨?_, runs, Or.inr served⟩, there, ?_⟩
    · unfold dueIn
      rw [mine]
      simp only [isLiveIn_eq there]
      exact account.fell
    · unfold owedAfter
      rw [mine]
      simp only [isLiveIn_eq there]
      exact heapBalance.carry account

end Turns

/-- The balance of heap `i` in a run: one that is gone owes nothing, and one still to come has
accepted nothing. -/
structure RunBalance (i : Nat) (owed defined : List (ObjectRef × Finalizer)) (ran : List Finalizer)
    (s : Session) : Prop where
  ownership : Ownership ⟨s, none, [], []⟩
  there : ∀ c, s.collector? i = some c → HeapBalance owed defined ran c
  gone : s.collector? i = none → owed = []
  fresh : s.collectors.size ≤ i → defined = [] ∧ ran = []

namespace RunBalance
variable {owed defined : List (ObjectRef × Finalizer)} {ran : List Finalizer} {op : Op}

theorem opRuns (runBalance : RunBalance i owed defined ran s) (work : op.heap? = some i)
    (last : op = .shutDown i → s.collector? i = none) (unscripted : op.scripts i = false) :
    ∃ fell, OperationRuns i s op owed fell := by
  cases here : s.collector? i with
  | some c =>
    have calm : op ≠ .shutDown i := by
      intro same
      have gone := last same
      rw [here] at gone
      cases gone
    obtain ⟨fell, _, opRuns, _⟩ := (runBalance.there c here).opRuns here work calm unscripted
    exact ⟨fell, opRuns⟩
  | none =>
    obtain ⟨none_accepted, leaves⟩ := perform_of_gone here work unscripted
    refine ⟨[], ?_, by simp [leaves.runs], Or.inr ?_⟩
    · rw [dueIn, acceptedBy, if_pos work, none_accepted, runBalance.gone here]
      exact .refl _
    · rw [none_accepted]
      exact .leaves leaves

theorem perform (runBalance : RunBalance i owed defined ran s) (unscripted : op.scripts i = false) :
    RunBalance i (s.owedAfter i owed op) (defined ++ s.acceptedBy i op) (ran ++ s.ranBy i op)
      (s.perform op).1 := by
  have ownership := ownership_perform runBalance.ownership op
  have grows := size_collectors_perform runBalance.ownership op
  by_cases work : op.heap? = some i
  · cases here : s.collector? i with
    | none =>
      obtain ⟨none_accepted, leaves⟩ := perform_of_gone here work unscripted
      have there := (collector?_congr leaves.collectors i).trans here
      have none_ran : s.ranBy i op = [] := ranBy_of_runs work (by simp [leaves.runs])
      rw [none_ran, owedAfter, acceptedBy, if_pos work, none_accepted, runBalance.gone here]
      simp only [List.append_nil]
      refine ⟨ownership, ?_, fun _ => rfl, fun outside => runBalance.fresh
        (Nat.le_trans grows outside)⟩
      intro c here
      rw [there] at here
      cases here
    | some c =>
      have inside : ¬ (s.perform op).1.collectors.size ≤ i :=
        Nat.not_le_of_lt (Nat.lt_of_lt_of_le (s.lt_size_of_collector? here) grows)
      by_cases calm : op = .shutDown i
      · have there : (s.perform op).1.collector? i = none := by
          rw [calm]
          exact (collector?_shutDown s i i).trans (if_pos rfl)
        refine ⟨ownership, ?_, fun _ => ?_, fun outside => absurd outside inside⟩
        · intro c here
          rw [there] at here
          cases here
        · apply List.filter_eq_nil_iff.mpr
          intro d _
          simp [isLiveIn, there]
      · obtain ⟨fell, c', opRuns, there, heapBalance⟩ :=
          (runBalance.there c here).opRuns here work calm unscripted
        rw [ranBy_of_runs work opRuns.runs]
        refine ⟨ownership, ?_, ?_, fun outside => absurd outside inside⟩
        · intro d here
          rw [there] at here
          cases here
          exact heapBalance
        · intro gone
          rw [there] at gone
          cases gone
  · have none_accepted : s.acceptedBy i op = [] := if_neg work
    have none_ran : s.ranBy i op = [] := if_neg work
    rw [none_ran, none_accepted, List.append_nil, List.append_nil]
    by_cases new : ∃ config, op = .newHeap config ∧ i = s.collectors.size
    · obtain ⟨config, same, last⟩ := new
      have absent : s.collector? i = none := by simp [collector?, last]
      have there : (s.perform op).1.collector? i = some
          { heap := { runtime := ⟨s.runtimes + 1⟩, config, pins := s.pinSets.size } } := by
        rw [same]
        exact (s.collector?_newHeap config i).trans (if_pos last)
      obtain ⟨none_defined, none_ran⟩ := runBalance.fresh (Nat.le_of_eq last.symm)
      have heapBalance := HeapBalance.opened ⟨s.runtimes + 1⟩ config s.pinSets.size
      rw [runBalance.gone absent, (heapBalance.rests there none_accepted).1, none_defined, none_ran]
      exact ⟨ownership, fun c here => Option.some.inj (there.symm.trans here) ▸ heapBalance,
        fun _ => rfl,
        fun _ => ⟨rfl, rfl⟩⟩
    · have still := collector?_perform_of_ne (s := s) work fun config same last =>
        new ⟨config, same, last⟩
      refine ⟨ownership, ?_, ?_, fun outside => runBalance.fresh (Nat.le_trans grows outside)⟩
      · intro c there
        have heapBalance := runBalance.there c (still.symm.trans there)
        rw [(heapBalance.rests there none_accepted).1]
        exact heapBalance
      · intro gone
        rw [owedAfter, runBalance.gone (still.symm.trans gone), none_accepted]
        rfl

theorem run (runBalance : RunBalance i owed defined ran s) {ops : List Op}
    (plain : ∀ op ∈ ops, op.scripts i = false) :
    RunBalance i (outstanding i s owed ops) (defined ++ definitions i s ops)
      (ran ++ deliveriesBy i s ops) (s.after ops) := by
  induction ops generalizing s owed defined ran with
  | nil =>
    rw [definitions, deliveriesBy, List.append_nil, List.append_nil]
    exact runBalance
  | cons op rest ih =>
    have step := runBalance.perform (plain op List.mem_cons_self)
    rw [definitions, deliveriesBy, ← List.append_assoc, ← List.append_assoc]
    exact ih step fun other listed => plain other (List.mem_cons_of_mem op listed)

theorem start : RunBalance i [] [] [] {} where
  ownership := ownership_empty
  there c here := by simp [collector?] at here
  gone _ := rfl
  fresh _ := ⟨rfl, rfl⟩

end RunBalance

/-- The balance of heap `i` after a run. -/
structure Balanced (i : Nat) (ops : List Op) (c : Collector) : Prop where
  /-- The heap keeps for each name what is outstanding for it, in the order of definition. -/
  owes : ∀ r, c.heap.pendingOf r =
    ((outstanding i {} [] ops).filter fun d => d.1 = r).map Prod.snd
  live : ∀ d ∈ outstanding i {} [] ops, c.heap.isLive d.1 = true
  pending : c.heap.pendingCount = (outstanding i {} [] ops).length
  /-- What was accepted has run or is pending, each definition once. -/
  once : ((definitions i {} ops).map Prod.snd).Perm
    (deliveriesBy i {} ops ++ (outstanding i {} [] ops).map Prod.snd)
  counted : (deliveriesBy i {} ops).length = c.heap.stats.finalizersRun
  balance : (definitions i {} ops).length = c.heap.stats.finalizersRun + c.heap.pendingCount

/-- The last exit: a heap that owes `owed` is gone, and what it owes has run, or it never will. -/
structure ShutdownRuns (i : Nat) (s s' : Session) (teardown : TeardownPolicy)
    (owed : List (ObjectRef × Finalizer)) : Prop where
  gone : s'.collector? i = none
  fired : teardown = .fire →
    ∃ due : List Finalizer, due.Perm (owed.map Prod.snd) ∧ s'.runs = s.runs ++ due.toArray
  dropped : teardown = .drop → s'.runs = s.runs

/-- What a definition runs where there is no script. -/
structure DefineRuns (i : Nat) (s : Session) (c : Collector) (focus : Focus) (r : ObjectRef)
    (f : Finalizer) : Prop where
  refused : ∀ e, (s.define focus i r f).2 = .error e → (s.define focus i r f).1 = s
  late : c.heap.isLive r = false → (s.define focus i r f).2 = .ok .indirect ∧
    (s.define focus i r f).1.runs = s.runs.push f
  kept : c.heap.isLive r = true → (s.define focus i r f).1.runs = s.runs

theorem closing (s : Session) (i : Nat) {heap : Heap Finalizer} (sound : heap.Sound)
    {owed : List (ObjectRef × Finalizer)} (owes : heap.Owes owed)
    {groups : List (ObjectRef × List Finalizer)} (all : groups.Perm heap.sideTable.pairs) :
    ShutdownRuns i s (s.shutDownIn i heap groups) heap.config.teardown owed where
  gone := (collector?_shutDownIn s i heap groups i).trans (if_pos rfl)
  fired fire := by
    have runs := runs_shutDownIn s i heap groups
    rw [fire] at runs
    exact ⟨_, owes.drained sound all, runs⟩
  dropped drop := by
    have runs := runs_shutDownIn s i heap groups
    rw [drop] at runs
    exact runs

theorem defineRuns (here : s.collector? i = some c) (plain : c.IsPlain) (focus : Focus)
    (r : ObjectRef) (f : Finalizer) : DefineRuns i s c focus r f := by
  rcases define_plain here plain focus r f with ⟨heap, a, kept, done⟩ | ⟨dead, done⟩ |
    ⟨e, live, done⟩
  · have live := Heap.isLive_of_kept kept
    refine ⟨fun e failed => ?_, fun dead => ?_, fun _ => ?_⟩
    · rw [done] at failed
      cases failed
    · rw [live] at dead
      cases dead
    · rw [done]
      rfl
  · refine ⟨fun e failed => ?_, fun _ => ?_, fun live => ?_⟩
    · rw [done] at failed
      cases failed
    · rw [done]
      exact ⟨rfl, runs_deliver s focus c.heap.pins f⟩
    · rw [dead] at live
      cases live
  · have refused := done
    refine ⟨fun _ _ => ?_, fun dead => ?_, fun _ => ?_⟩
    · rw [done]
    · rw [live] at dead
      cases dead
    · rw [done]

end Session

/-- Every finalizer of a heap without a script runs once, in any run, with any other heaps. -/
theorem finalizers_run_exactly_once {i : Nat} {ops : List Op}
    (plain : ∀ op ∈ ops, op.scripts i = false) :
    (∀ c, (Session.after {} ops).collector? i = some c → Session.Balanced i ops c) ∧
    (∀ op, op.heap? = some i →
      (op = .shutDown i → (Session.after {} ops).collector? i = none) → op.scripts i = false →
      ∃ ran, Session.OperationRuns i (.after {} ops) op (Session.outstanding i {} [] ops) ran) ∧
    (∀ op, op.heap? = none →
      ((Session.after {} ops).perform op).1.runs = (Session.after {} ops).runs) ∧
    (∀ c, (Session.after {} ops).collector? i = some c →
      Session.ShutdownRuns i (.after {} ops) ((Session.after {} ops).perform (.shutDown i)).1
        c.heap.config.teardown (Session.outstanding i {} [] ops) ∧
      -- The order in which the side table is drained does not matter.
      ∀ groups, groups.Perm c.heap.sideTable.pairs →
        Session.ShutdownRuns i (.after {} ops) ((Session.after {} ops).shutDownIn i c.heap groups)
          c.heap.config.teardown (Session.outstanding i {} [] ops)) ∧
    (∀ s c focus r f, s.collector? i = some c → c.IsPlain →
      Session.DefineRuns i s c focus r f) := by
  have runBalance := Session.RunBalance.start.run plain
  refine ⟨fun c here => ?_, fun op => runBalance.opRuns, fun op idle => ?_, fun c here => ?_, ?_⟩
  · have heapBalance := runBalance.there c here
    exact {
      owes := heapBalance.owes
      live := fun d listed => heapBalance.owes.isLive heapBalance.sound listed
      pending := heapBalance.owes.pendingCount heapBalance.sound
      once := heapBalance.once
      counted := heapBalance.counted
      balance := heapBalance.balance }
  · by_cases new : ∃ config, op = .newHeap config
    · obtain ⟨config, new⟩ := new
      rw [new]
      rfl
    · exact (Session.perform_leavesHeaps idle fun config same => new ⟨config, same⟩).runs
  · have heapBalance := runBalance.there c here
    have closing {groups : List (ObjectRef × List Finalizer)}
        (all : groups.Perm c.heap.sideTable.pairs) :=
      Session.closing (.after {} ops) i heapBalance.sound heapBalance.owes all
    refine ⟨?_, fun groups all => closing all⟩
    change Session.ShutdownRuns i _ (Session.shutDown _ i) _ _
    rw [Session.shutDown_eq here]
    exact closing (List.mergeSort_perm _ _)
  · exact fun s c focus r f here plain => Session.defineRuns here plain focus r f

/-- One finalizer runs late on a name that is not live, another when its object is released. -/
theorem finalizers_run_of_release :
    ∃ ops c, ops = [.newHeap {}, .alloc 0 .emittable, .define 0 ⟨0, 0⟩ "kept" [],
        .define 0 ⟨0, 1⟩ "late" [], .release 0 ⟨0, 0⟩] ∧
      (Session.after {} ops).collector? 0 = some c ∧ Session.Balanced 0 ops c ∧
      Session.definitions 0 {} ops = [(⟨0, 0⟩, .user "kept" []), (⟨0, 1⟩, .user "late" [])] ∧
      Session.deliveriesBy 0 {} ops = [.user "late" [], .user "kept" []] := by
  obtain ⟨ops, run⟩ : ∃ ops : List Op, ops = [.newHeap {}, .alloc 0 .emittable,
    .define 0 ⟨0, 0⟩ "kept" [], .define 0 ⟨0, 1⟩ "late" [], .release 0 ⟨0, 0⟩] := ⟨_, rfl⟩
  have plain : ∀ op ∈ ops, op.scripts 0 = false := by
    rw [run]
    decide +kernel
  have present : ((Session.after {} ops).collector? 0).isSome = true := by
    rw [run]
    decide +kernel
  obtain ⟨c, here⟩ := Option.isSome_iff_exists.mp present
  refine ⟨ops, c, run, here, (finalizers_run_exactly_once plain).1 c here, ?_, ?_⟩
  · rw [run]
    decide +kernel
  · rw [run]
    decide +kernel

end WeakRefs
