import WeakRefs.Proofs.HeapCourse

/-!
# Events are never read

A session to which events were reported before does whatever it would have done without them, and
answers alike.
-/

namespace WeakRefs

namespace Session

/-- The session with events that were reported before all of its own. -/
def told (es : Array Event) (s : Session) : Session := { s with journal := es ++ s.journal }

section Views
variable (es : Array Event) (s : Session)

@[simp] theorem cell_told (c : Nat) : (s.told es).cell c = s.cell c := rfl

@[simp] theorem collector?_told (i : Nat) : (s.told es).collector? i = s.collector? i := rfl

@[simp] theorem ref?_told (r : Nat) : (s.told es).ref? r = s.ref? r := rfl

@[simp] theorem map?_told (m : Nat) : (s.told es).map? m = s.map? m := rfl

@[simp] theorem entry?_told (m : Nat) (key : String) :
    Session.entry? (s.told es) m key = s.entry? m key := rfl

@[simp] theorem isAlive_told (x : InstanceId) : (s.told es).isAlive x = s.isAlive x := rfl

end Views

section Delivery
variable {es : Array Event} {s : Session} (focus : Focus) (roots : Nat)

theorem emit_told (e : Event) : (s.told es).emit e = (s.emit e).told es := by
  unfold told emit
  rw [Array.append_push]

theorem emitAll_told (events : List Event) :
    (s.told es).emitAll events = (s.emitAll events).told es := by
  induction events generalizing s with
  | nil => rfl
  | cons e rest ih =>
    change ((s.told es).emit e).emitAll rest = _
    rw [emit_told]
    exact ih

theorem supersede_told (pins c : Nat) (handle : HandleId) :
    (s.told es).supersede pins c handle = (s.supersede pins c handle).told es := by
  unfold supersede
  dsimp only
  rw [cell_told]
  split <;> rfl

theorem disarm_told (r : WeakReference) :
    (s.told es).disarm roots r = (s.disarm roots r).told es := by
  unfold disarm
  split
  · rw [supersede_told, emit_told]
  · rfl

theorem discard_told (r : WeakReference) : (s.told es).discard r = (s.discard r).told es := by
  unfold discard
  split
  · exact supersede_told _ _ _
  · rfl

theorem discardAll_told (rs : List WeakReference) :
    (s.told es).discardAll rs = (s.discardAll rs).told es := by
  induction rs generalizing s with
  | nil => rfl
  | cons r rest ih =>
    change ((s.told es).discard r).discardAll rest = _
    rw [discard_told]
    exact ih

theorem releaseRef_told (r : Nat) : (s.told es).releaseRef roots r =
    (s.releaseRef roots r).told es := by
  unfold releaseRef
  rw [ref?_told]
  cases s.ref? r with
  | none => rfl
  | some ref =>
    dsimp only
    rw [disarm_told]
    rfl

theorem dropRef_told (r : Nat) : (s.told es).dropRef r = (s.dropRef r).told es := by
  unfold dropRef
  rw [ref?_told]
  cases s.ref? r with
  | none => rfl
  | some ref =>
    dsimp only
    rw [discard_told]
    rfl

theorem dropMap_told (m : Nat) : (s.told es).dropMap m = (s.dropMap m).told es := by
  unfold dropMap
  rw [map?_told]
  cases s.map? m with
  | none => rfl
  | some map =>
    dsimp only
    rw [discardAll_told]
    rfl

theorem onRef_told {r : Nat} {f g : WeakReference → Session × ActionReply}
    (same : ∀ ref, g ref = ((f ref).1.told es, (f ref).2)) :
    (s.told es).onRef focus r g = ((s.onRef focus r f).1.told es, (s.onRef focus r f).2) := by
  unfold onRef
  split
  · rfl
  · rw [ref?_told]
    cases s.ref? r with
    | none => rfl
    | some ref => exact same ref

theorem onMap_told {m : Nat} {f g : WeakValueMap → Session × ActionReply}
    (same : ∀ map, g map = ((f map).1.told es, (f map).2)) :
    (s.told es).onMap focus m g = ((s.onMap focus m f).1.told es, (s.onMap focus m f).2) := by
  unfold onMap
  split
  · rfl
  · rw [map?_told]
    cases s.map? m with
    | none => rfl
    | some map => exact same map

theorem act_told (a : Action) : (s.told es).act focus roots a =
    ((s.act focus roots a).1.told es, (s.act focus roots a).2) := by
  cases a with
  | isBound r => exact onRef_told focus fun _ => rfl
  | release r => exact onRef_told focus fun _ => by rw [releaseRef_told]
  | dropRef r => exact onRef_told focus fun _ => by rw [dropRef_told]
  | mapSize m => exact onMap_told focus fun _ => rfl
  | dropMap m => exact onMap_told focus fun _ => by rw [dropMap_told]
  | _ => rfl

theorem actAll_told (actions : List Action) : (s.told es).actAll focus roots actions =
    ((s.actAll focus roots actions).1.told es, (s.actAll focus roots actions).2) := by
  induction actions generalizing s with
  | nil => rfl
  | cons a rest ih =>
    unfold actAll
    dsimp only
    rw [act_told, ih]

theorem endBinding_told (c : Nat) (handle : HandleId) :
    (s.told es).endBinding roots c handle = (s.endBinding roots c handle).told es := by
  unfold endBinding
  dsimp only
  rw [cell_told]
  split
  · exact emit_told (s := ((s.setCell c _).unpin roots handle)) _
  · rfl

theorem deliver_told (f : Finalizer) :
    (s.told es).deliver focus roots f = (s.deliver focus roots f).told es := by
  cases f with
  | endBinding c handle =>
    exact endBinding_told (s := s.logRun (.endBinding c handle)) roots c handle
  | report m key handle => rfl
  | user label actions =>
    have logged : (s.told es).logRun (.user label actions) =
        (s.logRun (.user label actions)).told es := rfl
    unfold deliver carryOut
    dsimp only
    rw [logged, actAll_told]
    rfl

theorem deliverAll_told (due : List Finalizer) :
    (s.told es).deliverAll focus roots due = (s.deliverAll focus roots due).told es := by
  induction due generalizing s with
  | nil => rfl
  | cons f rest ih =>
    change ((s.told es).deliver focus roots f).deliverAll focus roots rest = _
    rw [deliver_told]
    exact ih

end Delivery

section Heaps
variable {es : Array Event} {s : Session} (focus : Focus) (i : Nat)

theorem modifyHeap_told (f : Heap Finalizer → Heap Finalizer) :
    (s.told es).modifyHeap i f = (s.modifyHeap i f).told es := rfl

theorem modifyCollector_told (f : Collector → Collector) :
    (s.told es).modifyCollector i f = (s.modifyCollector i f).told es := rfl

theorem recordInitialized_told (x : InstanceId) :
    (s.told es).recordInitialized x = (s.recordInitialized x).told es :=
  emit_told (s := { s with alive := s.alive.insert x }) _

theorem recordTornDown_told (x : InstanceId) :
    (s.told es).recordTornDown x = (s.recordTornDown x).told es := by
  unfold recordTornDown
  change (if x ∈ s.alive then _ else _) = _
  split
  · exact emit_told (s := { s with alive := s.alive.erase x }) _
  · rfl

theorem deliverDue_told (roots : Nat) (due : List Finalizer) :
    (s.told es).deliverDue focus i roots due = (s.deliverDue focus i roots due).told es := by
  unfold deliverDue
  rw [deliverAll_told]
  rfl

theorem settle_told (outcome : Heap Finalizer × List (Reclaimed Finalizer)) :
    (s.told es).settle focus i outcome = (s.settle focus i outcome).told es := by
  unfold settle
  dsimp only
  rw [modifyHeap_told, emitAll_told, deliverDue_told]

theorem newHeap_told (config : HeapConfig) : (s.told es).newHeap config =
    ((s.newHeap config).1.told es, (s.newHeap config).2) := by
  refine Prod.ext ?_ rfl
  exact emit_told (s := { (s.newHeap config).1 with journal := s.journal }) _

theorem alloc_told (kind : ObjectKind) : (s.told es).alloc i kind =
    ((s.alloc i kind).1.told es, (s.alloc i kind).2) := by
  unfold alloc
  rw [collector?_told]
  cases s.collector? i with
  | none => rfl
  | some c =>
    dsimp only
    cases c.heap.alloc kind <;> rfl

theorem releaseRoot_told (r : ObjectRef) :
    (s.told es).releaseRoot i r = (s.releaseRoot i r).told es := by
  unfold releaseRoot
  rw [collector?_told]
  cases s.collector? i with
  | none => rfl
  | some c => exact settle_told _ _ _

theorem collect_told : (s.told es).collect focus i =
    ((s.collect focus i).1.told es, (s.collect focus i).2) := by
  unfold collect
  rw [collector?_told]
  cases s.collector? i with
  | none => rfl
  | some c =>
    dsimp only
    rw [settle_told, modifyHeap_told, emit_told]

theorem attach_told (heap : Heap Finalizer) (r : ObjectRef) (f : Finalizer) :
    (s.told es).attach focus i heap r f =
      ((s.attach focus i heap r f).1.told es, (s.attach focus i heap r f).2) := by
  unfold attach
  cases heap.define r f with
  | due =>
    dsimp only
    rw [deliverDue_told]
  | _ => rfl

theorem define_told (r : ObjectRef) (f : Finalizer) : (s.told es).define focus i r f =
    ((s.define focus i r f).1.told es, (s.define focus i r f).2) := by
  unfold define
  rw [collector?_told]
  cases s.collector? i with
  | none => rfl
  | some c =>
    dsimp only
    cases c.nextDirective with
    | pass => exact attach_told (s := s.modifyCollector i Collector.advance) focus i c.heap r f
    | now a =>
      dsimp only
      rw [modifyCollector_told, deliver_told]
    | _ => rfl

theorem fireStashed_told (position : Nat) : (s.told es).fireStashed i position =
    ((s.fireStashed i position).1.told es, (s.fireStashed i position).2) := by
  unfold fireStashed
  rw [collector?_told]
  cases s.collector? i with
  | none => rfl
  | some c =>
    dsimp only
    cases c.stash[position]? with
    | none => rfl
    | some f =>
      dsimp only
      rw [modifyCollector_told, deliver_told]

theorem shutDown_told : (s.told es).shutDown i = (s.shutDown i).told es := by
  unfold shutDown
  rw [collector?_told]
  cases s.collector? i with
  | none => rfl
  | some c =>
    dsimp only
    unfold shutDownIn
    dsimp only
    rw [recordTornDown_told]
    cases c.heap.config.teardown with
    | fire =>
      dsimp only
      rw [modifyHeap_told, deliverAll_told]
      rfl
    | drop =>
      dsimp only
      rw [emit_told]
      rfl

end Heaps

section References
variable {es : Array Event} {s : Session} (focus : Focus) (i : Nat) (ref : WeakReference)

theorem install_told (pins c : Nat) (handle : HandleId) (target : ObjectRef) :
    (s.told es).install pins c handle target = (s.install pins c handle target).told es := by
  unfold install
  rw [cell_told]
  split <;> rfl

theorem bind_told (target : ObjectRef) : (s.told es).bind focus i ref target =
    ((s.bind focus i ref target).1.told es, (s.bind focus i ref target).2) := by
  have opened : (s.told es).newCell = (s.newCell.1.told es, s.newCell.2) := rfl
  unfold bind
  rw [collector?_told]
  cases s.collector? i with
  | none => rfl
  | some c =>
    dsimp only
    rw [opened, define_told]
    dsimp only
    cases (s.newCell.1.define focus i target (.endBinding s.newCell.2 ref.id)).2 with
    | error e =>
      dsimp only
      rw [← emitAll_told]
      rfl
    | ok a =>
      dsimp only
      rw [disarm_told, install_told, emit_told]

theorem bindNew_told (target : ObjectRef) : (s.told es).bindNew focus i target =
    ((s.bindNew focus i target).1.told es, (s.bindNew focus i target).2) := by
  have fresh : (s.told es).freshHandle = (s.freshHandle.1.told es, s.freshHandle.2) := rfl
  unfold bindNew
  rw [fresh]
  dsimp only
  rw [bind_told]

theorem read_told : (s.told es).read i ref = ((s.read i ref).1.told es, (s.read i ref).2) := by
  unfold read
  rw [collector?_told]
  cases s.collector? i with
  | none => rfl
  | some c =>
    cases ref.binding with
    | none => rfl
    | some b =>
      dsimp only
      rw [cell_told]
      cases state : (s.cell b.cell).get? with
      | none => rfl
      | some target =>
        dsimp only
        split
        · rfl
        · unfold clearDead
          dsimp only
          rw [cell_told]
          split
          · exact Prod.ext (emit_told (s := ((s.setCell b.cell _).unpin c.heap.pins ref.id)) _) rfl
          · exact Prod.ext (emit_told (s := s.setCell b.cell _) _) rfl

theorem refresh_told : (s.told es).refresh focus i ref = (s.refresh focus i ref).told es := by
  unfold refresh
  rw [collect_told]
  split <;> rfl

theorem object_told : (s.told es).object focus i ref =
    ((s.object focus i ref).1.told es, (s.object focus i ref).2) := by
  unfold object
  cases ref.runtime? with
  | none => rfl
  | some x =>
    dsimp only
    rw [isAlive_told]
    split
    · rw [refresh_told, read_told]
    · rfl

theorem defineOn_told (f : Finalizer) : (s.told es).defineOn focus i ref f =
    ((s.defineOn focus i ref f).1.told es, (s.defineOn focus i ref f).2) := by
  unfold defineOn
  rw [object_told]
  dsimp only
  cases (s.object focus i ref).2 with
  | none => rfl
  | some target => exact define_told _ _ _ _

end References

section Maps
variable {es : Array Event} {s : Session} (i m : Nat) (key : String)

theorem pruneMap_told : (s.told es).pruneMap m = (s.pruneMap m).told es := by
  unfold pruneMap
  rw [map?_told]
  cases s.map? m with
  | none => rfl
  | some map =>
    dsimp only
    rw [discardAll_told]
    split
    · rfl
    · exact emit_told (s := (s.discardAll _).setMap m _) _

theorem mapGet_told : (s.told es).mapGet i m key =
    ((s.mapGet i m key).1.told es, (s.mapGet i m key).2) := by
  unfold mapGet
  rw [collector?_told]
  cases s.collector? i with
  | none => rfl
  | some c =>
    dsimp only
    rw [pruneMap_told, entry?_told]
    cases Session.entry? (s.pruneMap m) m key with
    | none => rfl
    | some r =>
      dsimp only
      rw [object_told, pruneMap_told]

theorem placeEntry_told (roots : Nat) (r : WeakReference) :
    (s.told es).placeEntry roots m key r = (s.placeEntry roots m key r).told es := by
  unfold placeEntry
  rw [entry?_told]
  cases s.entry? m key with
  | none => rfl
  | some previous =>
    dsimp only
    rw [disarm_told]
    rfl

theorem mapInsert_told (value : ObjectRef) : (s.told es).mapInsert i m key value =
    ((s.mapInsert i m key value).1.told es, (s.mapInsert i m key value).2) := by
  unfold mapInsert
  rw [collector?_told, map?_told]
  cases s.collector? i with
  | none => rfl
  | some c =>
    cases s.map? m with
    | none => rfl
    | some map =>
      dsimp only
      rw [pruneMap_told, bindNew_told]
      dsimp only
      cases ((s.pruneMap m).bindNew (.map m) i value).2 with
      | error e => rfl
      | ok r =>
        dsimp only
        rw [define_told]
        dsimp only
        cases (((s.pruneMap m).bindNew (.map m) i value).1.define (.map m) i value
            (.report m key r.id)).2 with
        | error e => exact Prod.ext (discard_told r) rfl
        | ok a => exact Prod.ext (placeEntry_told m key _ r) rfl

theorem mapRemove_told : (s.told es).mapRemove i m key =
    ((s.mapRemove i m key).1.told es, (s.mapRemove i m key).2) := by
  unfold mapRemove
  rw [collector?_told]
  cases s.collector? i with
  | none => rfl
  | some c =>
    dsimp only
    rw [pruneMap_told, entry?_told]
    cases Session.entry? (s.pruneMap m) m key with
    | none => rfl
    | some r =>
      dsimp only
      rw [read_told, disarm_told]
      rfl

theorem sweepEntries_told (entries : List (String × WeakReference)) :
    (s.told es).sweepEntries i entries =
      ((s.sweepEntries i entries).1.told es, (s.sweepEntries i entries).2) := by
  induction entries generalizing s with
  | nil => rfl
  | cons pair rest ih =>
    obtain ⟨key, r⟩ := pair
    unfold sweepEntries
    dsimp only
    rw [read_told]
    dsimp only
    cases (s.read i r).2 with
    | none =>
      dsimp only
      rw [discard_told, ih]
    | some v => exact ih

theorem mapUpdate_told : (s.told es).mapUpdate i m = (s.mapUpdate i m).told es := by
  unfold mapUpdate
  rw [collector?_told]
  cases s.collector? i with
  | none => rfl
  | some c =>
    dsimp only
    rw [pruneMap_told, map?_told]
    cases (s.pruneMap m).map? m with
    | none => rfl
    | some map =>
      dsimp only
      rw [sweepEntries_told]
      dsimp only
      split
      · rfl
      · exact emit_told (s := Session.modifyEntries _ m _) _

end Maps

section Runs
variable {es : Array Event} {s : Session}

theorem withRef_told {r : Nat} {f g : WeakReference → Session × Reply}
    (same : ∀ ref, g ref = ((f ref).1.told es, (f ref).2)) :
    (s.told es).withRef r g = ((s.withRef r f).1.told es, (s.withRef r f).2) := by
  unfold withRef
  rw [ref?_told]
  cases s.ref? r with
  | none => rfl
  | some ref => exact same ref

theorem addRefTo_told (i : Nat) (target : ObjectRef) : (s.told es).addRefTo i target =
    ((s.addRefTo i target).1.told es, (s.addRefTo i target).2) := by
  unfold addRefTo
  rw [bindNew_told]
  dsimp only
  cases (s.bindNew .idle i target).2 <;> rfl

/-- What was reported before changes no operation and no answer. -/
theorem perform_told (op : Op) :
    (s.told es).perform op = ((s.perform op).1.told es, (s.perform op).2) := by
  cases op with
  | newHeap config =>
    unfold perform
    dsimp only
    rw [newHeap_told]
  | shutDown i => exact Prod.ext (shutDown_told i) rfl
  | alloc i kind =>
    unfold perform
    dsimp only
    rw [alloc_told]
    dsimp only
    cases (s.alloc i kind).2 <;> rfl
  | release i obj => exact Prod.ext (releaseRoot_told i obj) rfl
  | collect i =>
    unfold perform
    dsimp only
    rw [collect_told]
  | define i obj label actions =>
    unfold perform
    dsimp only
    rw [define_told]
  | fire i position =>
    unfold perform
    dsimp only
    rw [fireStashed_told]
  | initialized x => exact Prod.ext (recordInitialized_told x) rfl
  | tornDown x => exact Prod.ext (recordTornDown_told x) rfl
  | newRefTo i obj => exact addRefTo_told i obj
  | bind i r obj =>
    refine withRef_told fun ref => ?_
    unfold bindRef
    rw [bind_told]
    rfl
  | read i r => exact withRef_told fun ref => by rw [read_told]
  | object i r => exact withRef_told fun ref => by rw [object_told]
  | refresh i r => exact withRef_told fun ref => by rw [refresh_told]
  | refDefine i r label actions => exact withRef_told fun ref => by rw [defineOn_told]
  | releaseRef i r =>
    refine Prod.ext ?_ rfl
    change ((s.pinsOf i).map fun roots => (s.told es).releaseRef roots r).getD (s.told es) = _
    cases pins : s.pinsOf i with
    | none =>
      unfold perform
      dsimp only
      rw [pins]
      rfl
    | some roots =>
      unfold perform
      dsimp only
      rw [pins]
      exact releaseRef_told roots r
  | inspect r => exact withRef_told fun ref => rfl
  | dropRef r => exact Prod.ext (dropRef_told r) rfl
  | mapInsert i m key obj =>
    unfold perform
    dsimp only
    rw [mapInsert_told]
    dsimp only
    cases (s.mapInsert i m key obj).2 <;> rfl
  | mapGet i m key =>
    unfold perform
    dsimp only
    rw [mapGet_told]
  | mapRemove i m key =>
    unfold perform
    dsimp only
    rw [mapRemove_told]
  | mapUpdate i m => exact Prod.ext (mapUpdate_told i m) rfl
  | dropMap m => exact Prod.ext (dropMap_told m) rfl
  | _ => rfl

theorem after_told (ops : List Op) : (s.told es).after ops = (s.after ops).told es := by
  induction ops generalizing s with
  | nil => rfl
  | cons op rest ih =>
    rw [after_cons, perform_told]
    exact ih

/-- What a session answers to a run, one reply for each operation. -/
def replies (s : Session) (ops : List Op) : List Reply :=
    trace (fun s op => [(s.perform op).2]) s ops

theorem replies_told (ops : List Op) : (s.told es).replies ops = s.replies ops := by
  induction ops generalizing s with
  | nil => rfl
  | cons op rest ih =>
    have later : ((s.told es).perform op).1.replies rest = (s.perform op).1.replies rest := by
      rw [perform_told]
      exact ih
    change ((s.told es).perform op).2 :: ((s.told es).perform op).1.replies rest = _
    rw [later, perform_told]
    rfl

end Runs

/-- Two sessions that differ at most in what was reported. -/
def SameButReports (s s' : Session) : Prop := ∃ journal, s' = { s with journal }

namespace SameButReports
variable {s s' : Session}

theorem of_emitAll (events : List Event) : SameButReports s (s.emitAll events) :=
  ⟨_, emitAll_eq s events⟩

/-- Both are one session, to which different events were reported before. -/
theorem eq_told (same : SameButReports s s') : ∃ t, s = told s.journal t ∧ s' =
    told s'.journal t := by
  obtain ⟨journal, rfl⟩ := same
  exact ⟨{ s with journal := #[] }, by simp [told], by simp [told]⟩

/-- They go on alike. -/
theorem after (same : SameButReports s s') (ops : List Op) :
    SameButReports (s.after ops) (s'.after ops) ∧ s'.replies ops = s.replies ops := by
  obtain ⟨t, first, second⟩ := same.eq_told
  constructor
  · rw [first, second, after_told, after_told]
    exact ⟨_, rfl⟩
  · rw [first, second, replies_told, replies_told]

end SameButReports

end Session

end WeakRefs
