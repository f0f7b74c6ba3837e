import WeakRefs.Proofs.BareHeap
import WeakRefs.Proofs.HeapCourse

/-!
# Weak references only observe

`stripped` tells what an operation asks of the heaps. A run and its `shadow`, the run of what was
stripped, keep the same bare heaps.
-/

namespace WeakRefs

/-- What an operation that a host can do without weak references does to all bare heaps. -/
def Op.onBares (bares : Array (Option (Heap Empty))) : Op → Array (Option (Heap Empty))
  | .newHeap _ => bares.push (some { runtime := ⟨0⟩, config := {}, pins := 0 })
  | .shutDown i => bares.setIfInBounds i none
  | .alloc i wanted => bares.modify i (Option.map fun h => h.afterAlloc wanted)
  | .retain i r => bares.modify i (Option.map (·.retain r))
  | .release i r => bares.modify i (Option.map fun h => (h.release r).1)
  | .collect i => bares.modify i (Option.map fun h => h.sweep.1.countCollection)
  | _ => bares

namespace Op

/-- Whether an operation asks a heap for something and leaves it where it is. -/
def isWork : Op → Bool
  | alloc _ _ | retain _ _ | release _ _ | collect _ => true
  | _ => false

/-- Whether a host can do an operation without weak references. -/
def isBare : Op → Bool
  | newHeap _ | shutDown _ => true
  | op => op.isWork

end Op

namespace Session

/-- Whether a reference asks for a collection before it answers. -/
def asks (s : Session) (ref : WeakReference) : Bool := ref.isIndirect && ref.runtime?.any s.isAlive

/-- What is asked of the heaps in an operation. -/
def stripped (s : Session) : Op → List Op
  | .refresh i r => if (s.ref? r).any WeakReference.isIndirect then [.collect i] else []
  | .object i r | .refDefine i r _ _ => if (s.ref? r).any s.asks then [.collect i] else []
  | .mapGet i m key =>
    if (Session.entry? (s.pruneMap m) m key).any (s.pruneMap m).asks then [.collect i] else []
  | op => if op.isBare then [op] else []

/-- What is asked of the heaps in a run. -/
def shadow (s : Session) (ops : List Op) : List Op := trace stripped s ops

/-- All heaps, as far as their hosts work on them. -/
def bares (s : Session) : Array (Option (Heap Empty)) :=
  s.collectors.map (Option.map fun c => c.heap.bare)

variable {s : Session} {i : Nat} {c : Collector}

section Views

theorem bares_congr {s' : Session} (same : s'.collectors = s.collectors) : s'.bares = s.bares :=
  congrArg (fun collectors => collectors.map (Option.map fun c => c.heap.bare)) same

theorem LeavesHeaps.bares {s' : Session} (leaves : LeavesHeaps s s') : s'.bares = s.bares :=
  bares_congr leaves.collectors

theorem getElem?_bares (s : Session) (i : Nat) :
    s.bares[i]?.join = (s.collector? i).map fun c => c.heap.bare := by
  unfold bares collector?
  rw [Array.getElem?_map]
  cases s.collectors[i]? <;> rfl

theorem size_bares (s : Session) : s.bares.size = s.collectors.size := Array.size_map

theorem bares_modifyCollector (f : Collector → Collector) {g : Heap Empty → Heap Empty}
    (worked : ∀ c, s.collector? i = some c → (f c).heap.bare = g c.heap.bare) :
    (s.modifyCollector i f).bares = s.bares.modify i (Option.map g) := by
  unfold bares modifyCollector
  apply Array.ext_getElem?
  intro j
  rw [Array.getElem?_map, Array.getElem?_modify, Array.getElem?_modify, Array.getElem?_map]
  split
  · rename_i same
    subst same
    unfold collector? at worked
    cases there : s.collectors[i]? with
    | none => rfl
    | some d =>
      cases d with
      | none => rfl
      | some c =>
        rw [there] at worked
        exact congrArg (fun h => some (some h)) (worked c rfl)
  · rfl

theorem modify_id {α : Type} (bares : Array (Option α)) (i : Nat) :
    bares.modify i (Option.map id) = bares := by
  apply Array.ext_getElem?
  intro j
  rw [Array.getElem?_modify]
  split
  · simp
  · rfl

theorem modify_modify {α : Type} (bares : Array (Option α)) (i : Nat) (g g' : α → α) :
    (bares.modify i (Option.map g)).modify i (Option.map g') =
      bares.modify i (Option.map fun b => g' (g b)) := by
  apply Array.ext_getElem?
  intro j
  rw [Array.getElem?_modify, Array.getElem?_modify, Array.getElem?_modify]
  split
  · simp [Function.comp_def]
  · rfl

theorem bares_modifyCollector_same (f : Collector → Collector)
    (same : ∀ c, s.collector? i = some c → (f c).heap.bare = c.heap.bare) :
    (s.modifyCollector i f).bares = s.bares := by
  rw [bares_modifyCollector (g := id) f same, modify_id]

theorem bares_setCollector (here : s.collector? i = some c) {c' : Collector}
    {g : Heap Empty → Heap Empty} (worked : c'.heap.bare = g c.heap.bare) :
    (s.setCollector i c').bares = s.bares.modify i (Option.map g) := by
  rw [← s.modifyCollector_eq here fun _ => c']
  refine bares_modifyCollector _ fun d there => ?_
  rw [← Option.some.inj (here.symm.trans there)]
  exact worked

theorem bares_setCollector_same (here : s.collector? i = some c) {c' : Collector}
    (same : c'.heap.bare = c.heap.bare) : (s.setCollector i c').bares = s.bares := by
  rw [bares_setCollector (g := id) here same, modify_id]

theorem bares_countRun (s : Session) (i n : Nat) :
    (s.modifyHeap i (·.countRun n)).bares = s.bares :=
  bares_modifyCollector_same _ fun c _ => c.heap.bare_countRun n

theorem modify_of_same {g : Heap Empty → Heap Empty}
    (same : ∀ c, s.collector? i = some c → g c.heap.bare = c.heap.bare) :
    s.bares.modify i (Option.map g) = s.bares := by
  rw [← bares_modifyCollector (g := g) (fun c => c) fun c here => (same c here).symm]
  exact bares_modifyCollector_same _ fun _ _ => rfl

theorem modify_of_gone (gone : s.collector? i = none) (g : Heap Empty → Heap Empty) :
    s.bares.modify i (Option.map g) = s.bares := by
  refine modify_of_same fun c here => ?_
  rw [gone] at here
  cases here

end Views

section Heaps

theorem bares_settle (here : s.collector? i = some c) (focus : Focus)
    {outcome : Heap Finalizer × List (Reclaimed Finalizer)} {g : Heap Empty → Heap Empty}
    (worked : outcome.1.bare = g c.heap.bare) :
    (s.settle focus i outcome).bares = s.bares.modify i (Option.map g) := by
  have written : (s.setCollector i { c with heap := outcome.1 }).bares =
      s.bares.modify i (Option.map g) := bares_setCollector here worked
  unfold settle deliverDue
  rw [bares_countRun, bares_congr (collectors_deliverAll _ _ _ _), (LeavesHeaps.emitAll _ _).bares,
    modifyHeap_eq here]
  exact written

theorem bares_collect (s : Session) (focus : Focus) (i : Nat) :
    (s.collect focus i).1.bares = Op.onBares s.bares (.collect i) := by
  unfold collect Op.onBares
  cases here : s.collector? i with
  | none => exact (modify_of_gone here _).symm
  | some c =>
    have settled : (s.settle focus i c.heap.sweep).bares =
        s.bares.modify i (Option.map fun h => h.sweep.1) :=
      bares_settle here focus c.heap.bare_sweep
    dsimp only
    rw [(LeavesHeaps.emit _ _).bares, modifyHeap,
      bares_modifyCollector (g := Heap.countCollection) _ fun d _ => d.heap.bare_countCollection,
      settled, modify_modify]

theorem bares_releaseRoot (s : Session) (i : Nat) (r : ObjectRef) :
    (s.releaseRoot i r).bares = Op.onBares s.bares (.release i r) := by
  unfold releaseRoot Op.onBares
  cases here : s.collector? i with
  | none => exact (modify_of_gone here _).symm
  | some c =>
    exact bares_settle (g := fun h => (h.release r).1) here .idle (c.heap.bare_release r)

theorem bares_retain (s : Session) (i : Nat) (r : ObjectRef) :
    (s.retain i r).bares = Op.onBares s.bares (.retain i r) :=
  bares_modifyCollector _ fun c _ => c.heap.bare_retain r

theorem bares_alloc (s : Session) (i : Nat) (kind : ObjectKind) :
    (s.perform (.alloc i kind)).1.bares = Op.onBares s.bares (.alloc i kind) := by
  cases here : s.collector? i with
  | none =>
    rw [perform_alloc_of_gone here]
    exact (modify_of_gone here _).symm
  | some c =>
    have bare := c.heap.bare_alloc kind
    cases allocated : c.heap.alloc kind with
    | ok made =>
      rw [allocated] at bare
      rw [perform_alloc_of_ok here allocated]
      refine bares_setCollector (g := fun h => h.afterAlloc kind) here ?_
      unfold Heap.afterAlloc
      rw [bare]
      rfl
    | error e =>
      rw [allocated] at bare
      rw [perform_alloc_of_error here allocated]
      refine (modify_of_same (g := fun h => h.afterAlloc kind) fun d there => ?_).symm
      rw [← Option.some.inj (here.symm.trans there)]
      unfold Heap.afterAlloc
      rw [bare]
      rfl

theorem bares_define (s : Session) (focus : Focus) (i : Nat) (r : ObjectRef) (f : Finalizer) :
    (s.define focus i r f).1.bares = s.bares := by
  cases here : s.collector? i with
  | none =>
    unfold define
    rw [here]
  | some c =>
    rcases s.define_cases here focus r f with ⟨e, refused⟩ | ⟨c', ran, a, t, receives, done, after⟩
    · rw [refused]
      exact bares_setCollector_same here rfl
    · have same : c'.heap.bare = c.heap.bare := by
        cases receives with
        | kept kept => exact Heap.bare_define _ kept
        | _ => rfl
      have written := bares_setCollector_same here same
      have delivered := (bares_congr ((s.setCollector i c').collectors_deliver focus
        c.heap.pins f)).trans written
      rw [done]
      cases ran with
      | false => exact (congrArg bares after).trans written
      | true =>
        rcases after with after | counted
        · rw [after]
          exact delivered
        · rw [counted, bares_countRun]
          exact delivered

theorem bares_fireStashed (s : Session) (i position : Nat) :
    (s.fireStashed i position).1.bares = s.bares := by
  unfold fireStashed
  split
  · rfl
  · split
    · rfl
    · exact (bares_congr (collectors_deliver _ _ _ _)).trans
        (bares_modifyCollector_same _ fun _ _ => rfl)

theorem bares_newHeap (s : Session) (config : HeapConfig) :
    (s.newHeap config).1.bares = Op.onBares s.bares (.newHeap config) := by
  have pushed : (s.newHeap config).1.collectors = s.collectors.push
      (some { heap := { runtime := ⟨s.runtimes + 1⟩, config, pins := s.pinSets.size } }) := rfl
  unfold bares
  rw [pushed, Array.map_push, Option.map_some, Heap.bare_new]
  rfl

theorem bares_shutDownIn (s : Session) (i : Nat) (heap : Heap Finalizer)
    (groups : List (ObjectRef × List Finalizer)) :
    (s.shutDownIn i heap groups).bares = s.bares.setIfInBounds i none := by
  have closed (t : Session) (others : t.bares.setIfInBounds i none = s.bares.setIfInBounds i none) :
      ({ t.clearPins heap.pins with collectors := t.collectors.setIfInBounds i none } :
        Session).bares = s.bares.setIfInBounds i none := by
    rw [← others]
    unfold bares
    rw [Array.map_setIfInBounds]
    rfl
  have tornDown := (leavesHeaps_recordTornDown s heap.runtime).bares
  unfold shutDownIn
  dsimp only
  cases heap.config.teardown with
  | fire =>
    apply closed
    have emptied : ((s.recordTornDown heap.runtime).modifyHeap i Heap.emptied).bares =
        s.bares.modify i (Option.map Heap.emptied) := by
      rw [← tornDown]
      exact bares_modifyCollector _ fun c _ => c.heap.bare_emptied
    rw [bares_congr (collectors_deliverAll _ _ _ _), emptied]
    apply Array.ext_getElem?
    intro j
    rw [Array.getElem?_setIfInBounds, Array.getElem?_setIfInBounds, Array.size_modify,
      Array.getElem?_modify]
    split <;> rfl
  | drop => exact closed _ (congrArg (·.setIfInBounds i none) tornDown)

theorem bares_shutDown (s : Session) (i : Nat) :
    (s.shutDown i).bares = Op.onBares s.bares (.shutDown i) := by
  unfold shutDown
  split
  · exact bares_shutDownIn s i _ _
  · rename_i gone
    refine (Array.ext_getElem? fun j => ?_).symm
    change (s.bares.setIfInBounds i none)[j]? = _
    rw [Array.getElem?_setIfInBounds]
    split
    · rename_i same
      rw [← same]
      split
      · rename_i inside
        have none_there := getElem?_bares s i
        rw [gone, Option.map_none] at none_there
        cases there : s.bares[i]? with
        | none => exact absurd inside (Nat.not_lt.mpr (Array.getElem?_eq_none_iff.mp there))
        | some b =>
          rw [there, Option.join_some] at none_there
          rw [none_there]
      · rename_i outside
        exact (Array.getElem?_eq_none (Nat.not_lt.mp outside)).symm
    · rfl

end Heaps

section References
variable (s : Session) (focus : Focus) (i : Nat)

theorem bares_refresh (ref : WeakReference) : (s.refresh focus i ref).bares =
    if ref.isIndirect then Op.onBares s.bares (.collect i) else s.bares := by
  unfold refresh
  split
  · exact s.bares_collect focus i
  · rfl

theorem bares_object (ref : WeakReference) : (s.object focus i ref).1.bares =
    if s.asks ref then Op.onBares s.bares (.collect i) else s.bares := by
  unfold object asks
  cases ref.runtime? with
  | none => simp
  | some x =>
    dsimp only
    cases there : s.isAlive x with
    | true =>
      have read := (leavesHeaps_read (s.refresh focus i ref) i ref).bares
      rw [if_pos rfl, read, s.bares_refresh focus i ref, Option.any_some, there, Bool.and_true]
    | false => simp [there]

theorem bares_bind (ref : WeakReference) (target : ObjectRef) :
    (s.bind focus i ref target).1.bares = s.bares := by
  unfold bind
  split
  · rfl
  rename_i c here
  have defined : (s.newCell.1.define focus i target (.endBinding s.newCell.2 ref.id)).1.bares =
      s.bares := bares_define s.newCell.1 focus i target _
  dsimp only
  generalize s.newCell.1.define focus i target (.endBinding s.newCell.2 ref.id) = done at defined
  obtain ⟨t, answer⟩ := done
  cases answer with
  | error e => exact (LeavesHeaps.emitAll _ _).bares.trans defined
  | ok a =>
    have disarmed := (LeavesHeaps.of_same (t.sameButBindings_disarm c.heap.pins ref)).bares
    have installed := (leavesHeaps_install (t.disarm c.heap.pins ref) c.heap.pins s.newCell.2 ref.id
      target).bares
    exact installed.trans (disarmed.trans defined)

theorem bares_bindNew (target : ObjectRef) : (s.bindNew focus i target).1.bares = s.bares :=
  bares_bind s.freshHandle.1 focus i _ target

theorem bares_addRefTo (target : ObjectRef) : (s.addRefTo i target).1.bares = s.bares := by
  have made := s.bares_bindNew .idle i target
  unfold addRefTo
  dsimp only
  split <;> exact made

theorem bares_defineOn (ref : WeakReference) (f : Finalizer) : (s.defineOn focus i ref f).1.bares =
    if s.asks ref then Op.onBares s.bares (.collect i) else s.bares := by
  have found := s.bares_object focus i ref
  unfold defineOn
  dsimp only
  split
  · exact found
  · rw [bares_define]
    exact found

end References

section Maps
variable (s : Session) (i m : Nat) (key : String)

theorem bares_mapGet : (s.mapGet i m key).1.bares =
    if (Session.entry? (s.pruneMap m) m key).any (s.pruneMap m).asks then
      Op.onBares s.bares (.collect i)
    else s.bares := by
  have pruned := (leavesHeaps_pruneMap s m).bares
  unfold mapGet
  cases here : s.collector? i with
  | none =>
    have idle : Op.onBares s.bares (.collect i) = s.bares := modify_of_gone here _
    rw [idle, ite_self]
  | some c =>
    dsimp only
    cases Session.entry? (s.pruneMap m) m key with
    | none => exact pruned
    | some r =>
      have found := (s.pruneMap m).bares_object (.map m) i r
      dsimp only
      rw [(leavesHeaps_pruneMap _ m).bares, found, pruned, Option.any_some]

theorem bares_mapInsert (value : ObjectRef) : (s.mapInsert i m key value).1.bares = s.bares := by
  unfold mapInsert
  split
  · rename_i c map _ _
    have made : ((s.pruneMap m).bindNew (.map m) i value).1.bares = s.bares :=
      ((s.pruneMap m).bares_bindNew (.map m) i value).trans (leavesHeaps_pruneMap s m).bares
    dsimp only
    generalize (s.pruneMap m).bindNew (.map m) i value = bound at made
    obtain ⟨t, answer⟩ := bound
    cases answer with
    | error e => exact made
    | ok r =>
      have reported := (t.bares_define (.map m) i value (.report m key r.id)).trans made
      dsimp only
      generalize t.define (.map m) i value (.report m key r.id) = done at reported
      obtain ⟨u, answer⟩ := done
      cases answer with
      | error e => exact (LeavesHeaps.of_same (u.sameButBindings_discard r)).bares.trans reported
      | ok a => exact (leavesHeaps_placeEntry u c.heap.pins m key r).bares.trans reported
  · rfl

end Maps

section Runs

theorem stripped_of_isBare (s : Session) {op : Op} (bare : op.isBare = true) :
    s.stripped op = [op] := by
  cases op <;> first | rfl | cases bare

theorem stripped_cases (s : Session) (op : Op) :
    (op.isBare = true ∧ s.stripped op = [op]) ∨ s.stripped op = [] ∨
      ∃ i, op.heap? = some i ∧ s.stripped op = [.collect i] := by
  have collects {p : Prop} [Decidable p] {j : Nat} : (if p then [Op.collect j] else []) = [] ∨
      ∃ i, some j = some i ∧ (if p then [Op.collect j] else []) = [.collect i] := by
    split
    · exact Or.inr ⟨j, rfl, rfl⟩
    · exact Or.inl rfl
  cases bare : op.isBare with
  | true => exact Or.inl ⟨rfl, s.stripped_of_isBare bare⟩
  | false =>
    right
    cases op with
    | refresh i r => exact collects
    | object i r => exact collects
    | refDefine i r label actions => exact collects
    | mapGet i m key => exact collects
    | _ => first | exact Or.inl rfl | cases bare

theorem isBare_of_mem_stripped (s : Session) {op asked : Op} (listed : asked ∈ s.stripped op) :
    asked.isBare = true := by
  rcases s.stripped_cases op with ⟨bare, itself⟩ | nothing | ⟨i, _, collects⟩
  · rw [itself, List.mem_singleton] at listed
    rw [listed]
    exact bare
  · rw [nothing] at listed
    cases listed
  · rw [collects, List.mem_singleton] at listed
    rw [listed]
    rfl

/-- An operation does to the bare heaps what is asked of the heaps in it. -/
theorem bares_perform (s : Session) (op : Op) :
    (s.perform op).1.bares = (s.stripped op).foldl Op.onBares s.bares := by
  have asked {p : Prop} [Decidable p] {i : Nat} : (if p then [Op.collect i] else []).foldl
      Op.onBares s.bares = if p then Op.onBares s.bares (.collect i) else s.bares := by
    split <;> rfl
  cases op with
  | newHeap config => exact s.bares_newHeap config
  | shutDown i => exact s.bares_shutDown i
  | alloc i kind => exact s.bares_alloc i kind
  | retain i obj => exact s.bares_retain i obj
  | release i obj => exact s.bares_releaseRoot i obj
  | collect i => exact s.bares_collect .idle i
  | isLive i obj => rfl
  | isReachable i obj => rfl
  | kind i obj => rfl
  | define i obj label actions => exact s.bares_define .idle i obj _
  | script i directives => exact bares_modifyCollector_same _ fun _ _ => rfl
  | fire i position => exact s.bares_fireStashed i position
  | reach i obj answer =>
    refine bares_modifyCollector_same _ fun c _ => ?_
    cases answer <;> rfl
  | newRefTo i obj => exact s.bares_addRefTo i obj
  | bind i r obj =>
    change (s.withRef r _).1.bares = s.bares
    unfold withRef
    split
    · exact s.bares_bind (.reference r) i _ obj
    · rfl
  | read i r =>
    change (s.withRef r _).1.bares = s.bares
    unfold withRef
    split
    · exact (leavesHeaps_read s i _).bares
    · rfl
  | object i r =>
    change (s.withRef r _).1.bares = _
    rw [stripped, asked]
    unfold withRef
    cases s.ref? r with
    | none => rfl
    | some ref => exact s.bares_object (.reference r) i ref
  | refresh i r =>
    change (s.withRef r _).1.bares = _
    rw [stripped, asked]
    unfold withRef
    cases s.ref? r with
    | none => rfl
    | some ref => exact s.bares_refresh (.reference r) i ref
  | refDefine i r label actions =>
    change (s.withRef r _).1.bares = _
    rw [stripped, asked]
    unfold withRef
    cases s.ref? r with
    | none => rfl
    | some ref => exact s.bares_defineOn (.reference r) i ref _
  | releaseRef i r =>
    change (((s.pinsOf i).map fun roots => s.releaseRef roots r).getD s).bares = s.bares
    cases s.pinsOf i with
    | none => rfl
    | some roots => exact (LeavesHeaps.releaseRef s roots r).bares
  | mapInsert i m key obj =>
    have inserted := s.bares_mapInsert i m key obj
    change (s.perform (.mapInsert i m key obj)).1.bares = s.bares
    unfold perform
    dsimp only
    split <;> exact inserted
  | mapGet i m key =>
    rw [stripped, asked]
    exact s.bares_mapGet i m key
  | mapRemove i m key => exact (leavesHeaps_mapRemove s i m key).bares
  | mapUpdate i m => exact (leavesHeaps_mapUpdate s i m).bares
  | _ => exact (perform_leavesHeaps rfl fun _ same => by cases same).bares

theorem isBare_of_mem_shadow (s : Session) {ops : List Op} {asked : Op}
    (listed : asked ∈ shadow s ops) : asked.isBare = true := by
  obtain ⟨t, op, _, there⟩ := mem_trace _ listed
  exact t.isBare_of_mem_stripped there

theorem bares_after_of_isBare {t : Session} {ops : List Op}
    (bare : ∀ op ∈ ops, op.isBare = true) : (t.after ops).bares = ops.foldl Op.onBares t.bares := by
  induction ops generalizing t with
  | nil => rfl
  | cons op rest ih =>
    rw [after_cons, ih fun other listed => bare other (List.mem_cons_of_mem op listed),
      bares_perform, t.stripped_of_isBare (bare op List.mem_cons_self)]
    rfl

theorem bares_after (s : Session) (ops : List Op) :
    (s.after ops).bares = (shadow s ops).foldl Op.onBares s.bares := by
  induction ops generalizing s with
  | nil => rfl
  | cons op rest ih =>
    have parts : shadow s (op :: rest) = s.stripped op ++ shadow (s.perform op).1 rest := rfl
    rw [after_cons, ih, bares_perform, parts, List.foldl_append]

theorem bares_shadow {s t : Session} (same : s.bares = t.bares) (ops : List Op) :
    (s.after ops).bares = (t.after (shadow s ops)).bares := by
  rw [bares_after, bares_after_of_isBare fun _ => s.isBare_of_mem_shadow, same]

end Runs

section Answers
variable {t : Session}

theorem bare_of_bares (same : s.bares = t.bares) (i : Nat) :
    ((s.collector? i).map fun c => c.heap.bare) = (t.collector? i).map fun c => c.heap.bare := by
  rw [← getElem?_bares, same, getElem?_bares]

theorem collected_of_bares (same : s.bares = t.bares) (focus focus' : Focus) (i : Nat) :
    (s.collect focus i).2 = (t.collect focus' i).2 := by
  have both := bare_of_bares same i
  unfold collect
  cases here : s.collector? i with
  | none =>
    rw [here] at both
    rw [Option.map_eq_none_iff.mp both.symm]
  | some c =>
    rw [here] at both
    obtain ⟨d, there, alike⟩ := Option.map_eq_some_iff.mp both.symm
    rw [there]
    dsimp only
    rw [← c.heap.length_sweep_bare, ← d.heap.length_sweep_bare, alike]

/-- What a bare heap answers to an allocation. -/
def allocReply : Except RefError (Heap Empty × ObjectRef) → Reply
  | .ok made => .object (some made.2)
  | .error e => .failed e

theorem reply_alloc (here : s.collector? i = some c) (kind : ObjectKind) :
    (s.perform (.alloc i kind)).2 = allocReply (c.heap.bare.alloc kind) := by
  rw [Heap.bare_alloc]
  cases allocated : c.heap.alloc kind with
  | ok made => rw [perform_alloc_of_ok here allocated]; rfl
  | error e => rw [perform_alloc_of_error here allocated]; rfl

theorem answer_of_bares (same : s.bares = t.bares) {op : Op} (work : op.isWork = true) :
    (s.perform op).2 = (t.perform op).2 := by
  cases op with
  | alloc i kind =>
    have both := bare_of_bares same i
    cases here : s.collector? i with
    | none =>
      rw [here] at both
      rw [perform_alloc_of_gone here, perform_alloc_of_gone (Option.map_eq_none_iff.mp both.symm)]
    | some c =>
      rw [here] at both
      obtain ⟨d, there, alike⟩ := Option.map_eq_some_iff.mp both.symm
      rw [reply_alloc here, reply_alloc there, alike]
  | retain i obj => rfl
  | release i obj => rfl
  | collect i => exact congrArg Reply.count (collected_of_bares same .idle .idle i)
  | _ => cases work

end Answers

/-- Two heaps that a host cannot tell apart. -/
structure HeapsAgree (h h' : Heap Finalizer) : Prop where
  isLive : ∀ r, h.isLive r = h'.isLive r
  isReachable : ∀ r, h.isReachable r = h'.isReachable r
  kind : ∀ r, h.kind? r = h'.kind? r
  liveCount : h.liveCount = h'.liveCount
  objectsReclaimed : h.stats.objectsReclaimed = h'.stats.objectsReclaimed
  collections : h.stats.collections = h'.stats.collections

theorem heapsAgree_of_bare {h h' : Heap Finalizer} (same : h.bare = h'.bare) : HeapsAgree h h' where
  isLive r := by rw [← h.isLive_bare, same, h'.isLive_bare]
  isReachable r := by rw [← h.isReachable_bare, same, h'.isReachable_bare]
  kind r := by rw [← h.kind?_bare, same, h'.kind?_bare]
  liveCount := by rw [← h.liveCount_bare, same, h'.liveCount_bare]
  objectsReclaimed := congrArg (fun b : Heap Empty => b.stats.objectsReclaimed) same
  collections := congrArg (fun b : Heap Empty => b.stats.collections) same

/-- Two sessions that the hosts of their heaps cannot tell apart. -/
structure Agree (s t : Session) : Prop where
  present : ∀ i, (s.collector? i).isSome = (t.collector? i).isSome
  heaps : ∀ i c d, s.collector? i = some c → t.collector? i = some d → HeapsAgree c.heap d.heap
  answers : ∀ op : Op, op.isWork = true → (s.perform op).2 = (t.perform op).2
  /-- A collection reclaims as many objects on behalf of whom it may be. -/
  collected : ∀ focus focus' i, (s.collect focus i).2 = (t.collect focus' i).2

theorem agree_of_bares {t : Session} (same : s.bares = t.bares) : Agree s t where
  present i := by
    have both := congrArg Option.isSome (bare_of_bares same i)
    rwa [Option.isSome_map, Option.isSome_map] at both
  heaps i c d here there := by
    have both := bare_of_bares same i
    rw [here, there] at both
    exact heapsAgree_of_bare (Option.some.inj both)
  answers _ := answer_of_bares same
  collected focus focus' i := collected_of_bares same focus focus' i

end Session

/-- Whatever is done with references, maps, finalizers and pins, a host sees its heaps as in the run
that has collections for it at most. -/
theorem weak_references_only_observe (ops more : List Op) :
    (Session.shadow {} ops).all Op.isBare = true ∧
      Session.shadow {} (ops ++ more) =
        Session.shadow {} ops ++ Session.shadow (.after {} ops) more ∧
      Session.Agree (.after {} ops) (.after {} (Session.shadow {} ops)) := by
  refine ⟨?_, Session.trace_append _ {} ops more, ?_⟩
  · exact List.all_eq_true.mpr fun op => Session.isBare_of_mem_shadow {}
  · exact Session.agree_of_bares (Session.bares_shadow rfl ops)

/-- A reference to a plain object asks for a collection, one to an emittable object does not. -/
example : Session.shadow {} [.newHeap {}, .alloc 0 .plain, .newRefTo 0 ⟨0, 0⟩, .object 0 0,
    .alloc 0 .emittable, .newRefTo 0 ⟨1, 0⟩, .object 0 1] =
      [.newHeap {}, .alloc 0 .plain, .collect 0, .alloc 0 .emittable] := by rfl

end WeakRefs
