import WeakRefs.Proofs.Alike
import WeakRefs.Proofs.MapChanges
import WeakRefs.Proofs.UnreadEvents

/-!
# Operations on sessions that are alike

The only step that reads a dead list is a pruning, and there the entries of the map must not share
cells, as they never do.
-/

namespace WeakRefs

namespace Session

/-- Entries of a map that share a cell are one. -/
def DistinctCells (s : Session) (m : Nat) : Prop :=
  ∀ k l a b c, s.entry? m k = some a → s.entry? m l = some b → a.cell? = some c →
    b.cell? = some c → a = b

theorem distinctCells_of_ownership {s : Session} (ownership : Ownership ⟨s, none, [], []⟩)
    (m : Nat) :
    s.DistinctCells m := by
  intro k l a b c here there mine its
  cases ownership.own (.entry m k) (.entry m l) a b c here there mine its
  exact Option.some.inj (here.symm.trans there)

namespace DistinctCells
variable {s s' : Session} {m : Nat}

theorem of_entries (distinct : s.DistinctCells m)
    (kept : ∀ k r, s'.entry? m k = some r → s.entry? m k = some r) : s'.DistinctCells m :=
  fun k l a b c here there => distinct k l a b c (kept k a here) (kept l b there)

theorem pruneMap (distinct : s.DistinctCells m) : (s.pruneMap m).DistinctCells m := by
  cases present : s.map? m with
  | none =>
    have same : s.pruneMap m = s := by
      unfold Session.pruneMap
      rw [present]
    rw [same]
    exact distinct
  | some map =>
    refine distinct.of_entries fun k r left => ?_
    obtain ⟨map', there, at_k⟩ := Option.bind_eq_some_iff.mp left
    cases (map?_pruneMap present).symm.trans there
    exact s.entry?_eq_some_iff.mpr ⟨map, present, ((map.get?_prune k r).mp at_k).1⟩

/-- Whoever is taken out by a pruning shares no cell with another. -/
theorem apart (distinct : s.DistinctCells m) {map : WeakValueMap} (present : s.map? m = some map) :
    ∀ a ∈ map.prune.2, ∀ b ∈ map.prune.2, ∀ c, a.cell? = some c → b.cell? = some c → a = b := by
  intro a taken b taken' c
  obtain ⟨k, at_k, _⟩ := (map.mem_prune a).mp taken
  obtain ⟨l, at_l, _⟩ := (map.mem_prune b).mp taken'
  exact distinct k l a b c (s.entry?_eq_some_iff.mpr ⟨map, present, at_k⟩)
    (s.entry?_eq_some_iff.mpr ⟨map, present, at_l⟩)

theorem object (distinct : s.DistinctCells m) (i : Nat) (ref : WeakReference) :
    (s.object (.map m) i ref).1.DistinctCells m := by
  refine distinct.of_entries fun k r there => ?_
  rw [entry?_eq, (stableView_entries? m).object, ← entry?_eq] at there
  exact there

end DistinctCells

namespace Alike
variable {s t : Session}

section References
variable (alike : Alike s t) (focus : Focus) (i : Nat) (ref : WeakReference)
include alike

theorem install (pins c : Nat) (handle : HandleId) (target : ObjectRef) :
    Alike (s.install pins c handle target) (t.install pins c handle target) := by
  unfold Session.install
  rw [alike.cell]
  split
  · exact (alike.modifyPins pins _).setCell c _
  · exact alike

theorem bind (target : ObjectRef) :
    AlikeResults (s.bind focus i ref target) (t.bind focus i ref target) := by
  have number : t.newCell.2 = s.newCell.2 := congrArg Array.size alike.cells
  have defined := alike.newCell.define focus i target (.endBinding s.newCell.2 ref.id)
  unfold Session.bind
  rw [alike.collector?]
  split
  · exact ⟨alike, rfl⟩
  · rename_i c here
    dsimp only
    rw [number, defined.answer]
    split
    · have forgotten : Alike
          { (s.newCell.1.define focus i target (.endBinding s.newCell.2 ref.id)).1 with
            cells := s.cells }
          { (t.newCell.1.define focus i target (.endBinding s.newCell.2 ref.id)).1 with
            cells := t.cells } := { defined.session with cells := alike.cells }
      exact ⟨forgotten.emitAll _ _, rfl⟩
    · exact ⟨((defined.session.disarm c.heap.pins ref).install _ _ _ _).emit _ _, rfl⟩

theorem bindNew (target : ObjectRef) :
    AlikeResults (s.bindNew focus i target) (t.bindNew focus i target) := by
  have fresh := alike.freshHandle
  have made := fresh.session.bind focus i { id := s.freshHandle.2 } target
  unfold Session.bindNew
  dsimp only
  rw [fresh.answer]
  refine ⟨made.session, ?_⟩
  dsimp only
  rw [made.answer]

theorem clearDead (roots c : Nat) (handle : HandleId) :
    Alike (s.clearDead roots c handle) (t.clearDead roots c handle) := by
  unfold Session.clearDead
  dsimp only
  rw [alike.cell]
  split
  · exact (alike.setCell c _).modifyPins roots _
  · exact alike.setCell c _

theorem read : AlikeResults (s.read i ref) (t.read i ref) := by
  unfold Session.read
  rw [alike.collector?]
  split
  · rw [alike.cell]
    split
    · exact ⟨alike, rfl⟩
    · split
      · exact ⟨alike, rfl⟩
      · exact ⟨(alike.clearDead _ _ _).emit _ _, rfl⟩
  · exact ⟨alike, rfl⟩

theorem refresh : Alike (s.refresh focus i ref) (t.refresh focus i ref) := by
  unfold Session.refresh
  split
  · exact (alike.collect focus i).session
  · exact alike

theorem object : AlikeResults (s.object focus i ref) (t.object focus i ref) := by
  unfold Session.object
  split
  · exact ⟨alike, rfl⟩
  · rw [alike.isAlive]
    split
    · exact (alike.refresh focus i ref).read i ref
    · exact ⟨alike, rfl⟩

theorem defineOn (f : Finalizer) :
    AlikeResults (s.defineOn focus i ref f) (t.defineOn focus i ref f) := by
  have found := alike.object focus i ref
  unfold Session.defineOn
  dsimp only
  rw [found.answer]
  split
  · exact ⟨found.session, rfl⟩
  · exact found.session.define focus i _ f

end References

section Maps
variable (alike : Alike s t) {m : Nat} (distinct : s.DistinctCells m) (i : Nat) (key : String)
include alike

theorem modifyEntries (f : Table String WeakReference → Table String WeakReference) :
    Alike (s.modifyEntries m f) (t.modifyEntries m f) :=
  alike.modifyMap m fun same => ⟨congrArg f same.entries, same.dead⟩

theorem placeEntry (roots : Nat) (r : WeakReference) :
    Alike (s.placeEntry roots m key r) (t.placeEntry roots m key r) := by
  unfold Session.placeEntry
  dsimp only
  rw [alike.entry?]
  split
  · exact (alike.disarm roots _).modifyEntries _
  · exact alike.modifyEntries _

theorem sweepEntries (entries : List (String × WeakReference)) :
    AlikeResults (s.sweepEntries i entries) (t.sweepEntries i entries) := by
  induction entries generalizing s t with
  | nil => exact ⟨alike, rfl⟩
  | cons pair rest ih =>
    obtain ⟨key, r⟩ := pair
    have found := alike.read i r
    unfold Session.sweepEntries
    dsimp only
    rw [found.answer]
    split
    · exact ih found.session
    · have others := ih (found.session.discard r)
      refine ⟨others.session, ?_⟩
      dsimp only
      rw [others.answer]

include distinct

/-- A pruning does not depend on the order of the reports. -/
theorem pruneMap : Alike (s.pruneMap m) (t.pruneMap m) := by
  unfold Session.pruneMap
  rcases alike.map_cases m with ⟨here, there⟩ | ⟨map, map', here, there, same⟩
  · rw [here, there]
    exact alike
  · have ⟨kept, evicted⟩ := same.prune
    have discarded := alike.discardAll map.prune.2
    rw [t.discardAll_perm evicted.symm (distinct.apart here)] at discarded
    have set := discarded.setMap m (.some (.refl map.prune.1))
    have none_taken : map'.prune.2.isEmpty = map.prune.2.isEmpty := evicted.isEmpty_eq
    rw [here, there]
    dsimp only
    rw [kept, none_taken]
    split
    · exact set
    · exact set.emit _ _

theorem mapGet : AlikeResults (s.mapGet i m key) (t.mapGet i m key) := by
  have pruned := alike.pruneMap distinct
  unfold Session.mapGet
  rw [alike.collector?]
  split
  · exact ⟨alike, rfl⟩
  · dsimp only
    rw [pruned.entry?]
    split
    · exact ⟨pruned, rfl⟩
    · rename_i r _
      have found := pruned.object (.map m) i r
      exact ⟨found.session.pruneMap (distinct.pruneMap.object i r), found.answer⟩

theorem mapInsert (value : ObjectRef) :
    AlikeResults (s.mapInsert i m key value) (t.mapInsert i m key value) := by
  have made := (alike.pruneMap distinct).bindNew (.map m) i value
  unfold Session.mapInsert
  rw [alike.collector?]
  rcases alike.map_cases m with ⟨here, there⟩ | ⟨map, map', here, there, _⟩
  · rw [here, there]
    cases s.collector? i <;> exact ⟨alike, rfl⟩
  · rw [here, there]
    cases s.collector? i with
    | none => exact ⟨alike, rfl⟩
    | some c =>
      dsimp only
      rw [made.answer]
      split
      · exact ⟨made.session, rfl⟩
      · rename_i r _
        have reported := made.session.define (.map m) i value (.report m key r.id)
        rw [reported.answer]
        split
        · exact ⟨reported.session.discard r, rfl⟩
        · exact ⟨reported.session.placeEntry key c.heap.pins r, rfl⟩

theorem mapRemove : AlikeResults (s.mapRemove i m key) (t.mapRemove i m key) := by
  have pruned := alike.pruneMap distinct
  unfold Session.mapRemove
  rw [alike.collector?]
  split
  · exact ⟨alike, rfl⟩
  · dsimp only
    rw [pruned.entry?]
    split
    · exact ⟨pruned, rfl⟩
    · rename_i r _
      have found := pruned.read i r
      exact ⟨(found.session.disarm _ r).modifyEntries _, found.answer⟩

theorem mapUpdate : Alike (s.mapUpdate i m) (t.mapUpdate i m) := by
  have pruned := alike.pruneMap distinct
  unfold Session.mapUpdate
  rw [alike.collector?]
  split
  · exact alike
  · dsimp only
    rcases pruned.map_cases m with ⟨here, there⟩ | ⟨map, map', here, there, same⟩
    · rw [here, there]
      exact pruned
    · have swept := pruned.sweepEntries i map.entries.pairs
      rw [here, there]
      dsimp only
      rw [same.entries, swept.answer]
      split
      · exact swept.session.modifyEntries _
      · exact (swept.session.modifyEntries _).emit _ _

end Maps

section Operations
variable (alike : Alike s t)
include alike

theorem withRef {r : Nat} {f g : WeakReference → Session × Reply}
    (same : ∀ ref, AlikeResults (f ref) (g ref)) :
    AlikeResults (s.withRef r f) (t.withRef r g) := by
  unfold Session.withRef
  rw [alike.ref?]
  split
  · exact same _
  · exact ⟨alike, rfl⟩

theorem ask (i : Nat) (f : Collector → Reply) : AlikeResults (s.ask i f) (t.ask i f) := by
  refine ⟨alike, ?_⟩
  unfold Session.ask
  dsimp only
  rw [alike.collector?]

theorem bindRef (i r : Nat) (ref : WeakReference) (target : ObjectRef) :
    AlikeResults (s.bindRef i r ref target) (t.bindRef i r ref target) := by
  have made := alike.bind (.reference r) i ref target
  unfold Session.bindRef
  dsimp only
  rw [made.answer]
  exact ⟨made.session.setRef r _, rfl⟩

theorem addRefTo (i : Nat) (target : ObjectRef) :
    AlikeResults (s.addRefTo i target) (t.addRefTo i target) := by
  have made := alike.bindNew .idle i target
  unfold Session.addRefTo
  dsimp only
  rw [made.answer]
  split
  · exact ⟨made.session.addRef _, rfl⟩
  · exact ⟨made.session.addRef none, rfl⟩

/-- Any operation answers alike and keeps sessions alike. -/
theorem perform (ownership : Ownership ⟨s, none, [], []⟩) (op : Op) :
    AlikeResults (s.perform op) (t.perform op) := by
  have distinct := distinctCells_of_ownership ownership
  cases op with
  | newHeap config =>
    have made := alike.newHeap config
    exact ⟨made.session, congrArg (Reply.heap · config) made.answer⟩
  | shutDown i => exact ⟨alike.shutDown i, rfl⟩
  | alloc i kind =>
    have made := alike.alloc i kind
    unfold Session.perform
    dsimp only
    rw [made.answer]
    split <;> exact ⟨made.session, rfl⟩
  | retain i obj => exact ⟨alike.modifyHeap i (·.retain obj), rfl⟩
  | release i obj => exact ⟨alike.releaseRoot i obj, rfl⟩
  | collect i =>
    have run := alike.collect .idle i
    exact ⟨run.session, congrArg Reply.count run.answer⟩
  | isLive i obj => exact alike.ask i _
  | isReachable i obj => exact alike.ask i _
  | kind i obj => exact alike.ask i _
  | define i obj label actions =>
    have defined := alike.define .idle i obj (.user label actions)
    exact ⟨defined.session, congrArg attachedReply defined.answer⟩
  | script i directives =>
    refine ⟨alike.modifyCollector i _, ?_⟩
    change Reply.count (((t.collector? i).map _).getD 0) = _
    rw [alike.collector?]
    rfl
  | fire i position =>
    have fired := alike.fireStashed i position
    exact ⟨fired.session, congrArg Reply.flag fired.answer⟩
  | reach i obj answer => exact ⟨alike.modifyCollector i _, rfl⟩
  | initialized x => exact ⟨alike.recordInitialized x, rfl⟩
  | tornDown x => exact ⟨alike.recordTornDown x, rfl⟩
  | isAlive x => exact ⟨alike, congrArg Reply.flag (alike.isAlive x)⟩
  | aliveCount =>
    refine ⟨alike, ?_⟩
    exact congrArg (fun alive : Roster InstanceId => Reply.count alive.size) alike.alive
  | nextRuntime =>
    have fresh := alike.freshRuntime
    exact ⟨fresh.session, congrArg (fun x : InstanceId => Reply.identity x.raw) fresh.answer⟩
  | nextHandle =>
    have fresh := alike.freshHandle
    exact ⟨fresh.session, congrArg (fun h : HandleId => Reply.identity h.raw) fresh.answer⟩
  | newRef =>
    have fresh := alike.freshHandle
    unfold Session.perform
    dsimp only
    rw [fresh.answer]
    exact ⟨fresh.session.addRef _, rfl⟩
  | newRefTo i obj => exact alike.addRefTo i obj
  | bind i r obj =>
    refine alike.withRef fun ref => ?_
    have made := alike.bindRef i r ref obj
    exact ⟨made.session, congrArg attachedReply made.answer⟩
  | read i r =>
    refine alike.withRef fun ref => ?_
    have found := alike.read i ref
    exact ⟨found.session, congrArg Reply.object found.answer⟩
  | object i r =>
    refine alike.withRef fun ref => ?_
    have found := alike.object (.reference r) i ref
    exact ⟨found.session, congrArg Reply.object found.answer⟩
  | refresh i r => exact alike.withRef fun ref => ⟨alike.refresh (.reference r) i ref, rfl⟩
  | refDefine i r label actions =>
    refine alike.withRef fun ref => ?_
    have defined := alike.defineOn (.reference r) i ref (.user label actions)
    exact ⟨defined.session, congrArg attachedReply defined.answer⟩
  | releaseRef i r =>
    unfold Session.perform pinsOf
    dsimp only
    rw [alike.collector?]
    cases s.collector? i with
    | none => exact ⟨alike, rfl⟩
    | some c => exact ⟨alike.releaseRef c.heap.pins r, rfl⟩
  | inspect r =>
    refine alike.withRef fun ref => ⟨alike, ?_⟩
    unfold inspect
    dsimp only
    rw [alike.isBound]
  | dropRef r => exact ⟨alike.dropRef r, rfl⟩
  | newMap => exact ⟨alike.addMap, rfl⟩
  | mapInsert i m key obj =>
    have inserted := alike.mapInsert (distinct m) i key obj
    unfold Session.perform
    dsimp only
    rw [inserted.answer]
    split <;> exact ⟨inserted.session, rfl⟩
  | mapGet i m key =>
    have found := alike.mapGet (distinct m) i key
    exact ⟨found.session, congrArg Reply.object found.answer⟩
  | mapRemove i m key =>
    have found := alike.mapRemove (distinct m) i key
    exact ⟨found.session, congrArg Reply.object found.answer⟩
  | mapUpdate i m => exact ⟨alike.mapUpdate (distinct m) i, rfl⟩
  | mapSize m =>
    refine ⟨alike, ?_⟩
    rcases alike.map_cases m with ⟨here, there⟩ | ⟨map, map', here, there, same⟩
    · unfold Session.perform
      dsimp only
      rw [here, there]
    · unfold Session.perform WeakValueMap.size
      dsimp only
      rw [here, there, Option.map_some, Option.map_some, same.entries]
  | dropMap m => exact ⟨alike.dropMap m, rfl⟩
  | newPinSet =>
    have made := alike.newPinSet
    exact ⟨made.session, congrArg Reply.pins made.answer⟩
  | pin pins handle => exact ⟨alike.modifyPins pins _, rfl⟩
  | unpin pins handle => exact ⟨alike.modifyPins pins _, rfl⟩
  | isPinned pins handle =>
    exact ⟨alike, congrArg (fun set => Reply.flag (decide (handle ∈ set))) (alike.pinned pins)⟩
  | clearPins pins => exact ⟨alike.modifyPins pins _, rfl⟩
  | pinCount pins =>
    refine ⟨alike, ?_⟩
    exact congrArg (fun set : Roster HandleId => Reply.size set.size) (alike.pinned pins)

/-- Sessions that are alike go on alike, whatever comes. -/
theorem after (ownership : Ownership ⟨s, none, [], []⟩) (ops : List Op) :
    Alike (s.after ops) (t.after ops) ∧ t.replies ops = s.replies ops := by
  induction ops generalizing s t with
  | nil => exact ⟨alike, rfl⟩
  | cons op rest ih =>
    have first := alike.perform ownership op
    have ⟨later, replies⟩ := ih first.session (ownership_perform ownership op)
    refine ⟨later, ?_⟩
    change (t.perform op).2 :: (t.perform op).1.replies rest =
      (s.perform op).2 :: (s.perform op).1.replies rest
    rw [first.answer, replies]

end Operations

end Alike

end Session

end WeakRefs
