import Mathlib.Data.List.Nodup
import WeakRefs.Proofs.Focus

/-!
# Sessions that are alike

Two sessions are alike that differ at most in what they have on record and in the order of reports
on dead lists. All that delivers finalizers and works on heaps keeps sessions alike.
-/

namespace WeakRefs

namespace Table
variable {κ ν : Type}

theorem ext_pairs {t u : Table κ ν} (same : t.pairs = u.pairs) : t = u := by
  cases t
  cases u
  cases same
  rfl

/-- To erase a key takes its value out, and no other. -/
theorem perm_values_erase [DecidableEq κ] [DecidableEq ν] (t : Table κ ν) {k : κ} {v : ν}
    (there : t.get? k = some v) : t.values.Perm (v :: (t.erase k).values) := by
  have listed := get?_eq_some_iff.mp there
  have rest : t.pairs.erase (k, v) = (t.erase k).pairs := by
    rw [(List.Nodup.of_map _ t.nodup).erase_eq_filter]
    refine List.filter_congr fun e among => ?_
    have one : e.1 = k → e.2 = v := by
      rintro rfl
      exact Option.some.inj ((get?_eq_some_iff.mpr among).symm.trans there)
    by_cases same : e.1 = k
    · simp [Prod.ext_iff, same, one same]
    · simp [Prod.ext_iff, same]
  have split := (List.perm_cons_erase listed).map Prod.snd
  rw [rest] at split
  exact split

end Table

namespace WeakValueMap

/-- Two maps that differ at most in the order of their dead lists. -/
structure SameButOrder (m n : WeakValueMap) : Prop where
  entries : n.entries = m.entries
  dead : n.dead.Perm m.dead

namespace SameButOrder
variable {m n : WeakValueMap}

theorem refl (m : WeakValueMap) : SameButOrder m m := ⟨rfl, .refl _⟩

theorem report (same : SameButOrder m n) (key : String) (handle : HandleId) :
    SameButOrder (m.report key handle) (n.report key handle) :=
  ⟨same.entries, same.dead.append_right _⟩

end SameButOrder

/-- A pruning keeps the entries that were not reported, in their order. -/
theorem pairs_evict (reports : List (String × HandleId)) (entries : Table String WeakReference) :
    (evict entries reports).1.pairs =
      entries.pairs.filter fun e => !reports.contains (e.1, e.2.id) := by
  induction reports generalizing entries with
  | nil => exact (List.filter_eq_self.mpr fun _ _ => rfl).symm
  | cons first rest ih =>
    obtain ⟨k, handle⟩ := first
    have idle (missed : ∀ r, entries.get? k = some r → r.id ≠ handle) :
        entries.pairs.filter (fun e => !rest.contains (e.1, e.2.id)) =
          entries.pairs.filter fun e => !((k, handle) :: rest).contains (e.1, e.2.id) := by
      refine List.filter_congr fun e listed => ?_
      have other : ¬ (e.1, e.2.id) = (k, handle) := by
        intro named
        obtain ⟨same, its⟩ := Prod.mk.inj named
        exact missed e.2 (Table.get?_eq_some_iff.mpr (same ▸ listed)) its
      simp [other]
    unfold evict
    split
    · rename_i r present
      split
      · rename_i its
        rw [ih]
        change (entries.pairs.filter _).filter _ = _
        rw [List.filter_filter]
        refine List.filter_congr fun e listed => ?_
        by_cases at_k : e.1 = k
        · have same : e.2 = r := by
            have found := Table.get?_eq_some_iff.mpr (at_k ▸ listed : (k, e.2) ∈ entries.pairs)
            exact Option.some.inj (found.symm.trans present)
          simp [at_k, same, its]
        · simp [at_k]
      · rename_i other
        rw [ih]
        refine idle fun q there => ?_
        cases present.symm.trans there
        exact other
    · rename_i absent
      rw [ih]
      refine idle fun q there => ?_
      cases absent.symm.trans there

/-- The entries kept and those evicted are all that there were. -/
theorem values_evict (reports : List (String × HandleId)) (entries : Table String WeakReference) :
    ((evict entries reports).2 ++ (evict entries reports).1.values).Perm entries.values := by
  induction reports generalizing entries with
  | nil => exact .refl _
  | cons first rest ih =>
    unfold evict
    split
    · rename_i r present
      split
      · exact ((ih _).cons r).trans (entries.perm_values_erase present).symm
      · exact ih entries
    · exact ih entries

/-- A pruning goes by the reports that there are, however often and in whatever order. -/
theorem prune_congr {m n : WeakValueMap} (entries : n.entries = m.entries)
    (same : ∀ e, e ∈ n.dead ↔ e ∈ m.dead) :
    n.prune.1 = m.prune.1 ∧ n.prune.2.Perm m.prune.2 := by
  have kept : (evict m.entries n.dead).1 = (evict m.entries m.dead).1 := by
    apply Table.ext_pairs
    rw [pairs_evict, pairs_evict]
    refine List.filter_congr fun e _ => ?_
    rw [List.contains_eq_mem, List.contains_eq_mem]
    simp only [same]
  have all := (values_evict n.dead m.entries).trans (values_evict m.dead m.entries).symm
  rw [kept] at all
  unfold WeakValueMap.prune
  rw [entries]
  exact ⟨congrArg (fun entries => ({ entries } : WeakValueMap)) kept,
    (List.perm_append_right_iff _).mp all⟩

theorem SameButOrder.prune {m n : WeakValueMap} (same : SameButOrder m n) :
    n.prune.1 = m.prune.1 ∧ n.prune.2.Perm m.prune.2 :=
  prune_congr same.entries fun _ => same.dead.mem_iff

end WeakValueMap

theorem Roster.erase_comm {α : Type} [DecidableEq α] (r : Roster α) (a b : α) :
    (r.erase a).erase b = (r.erase b).erase a := by
  unfold erase
  simp only [mk.injEq]
  exact List.filter_comm _ _ _

namespace Session

section LettingGo

/-- Two cells are superseded in either order. -/
theorem supersede_comm (s : Session) {c d : Nat} (other : c ≠ d) (p q : Nat) (h k : HandleId) :
    (s.supersede p c h).supersede q d k = (s.supersede q d k).supersede p c h := by
  have at_d : (s.supersede p c h).cell d = s.cell d := by
    rw [cell_supersede, if_neg other.symm]
  have at_c : (s.supersede q d k).cell c = s.cell c := by
    rw [cell_supersede, if_neg other]
  have pins (sets : Array (Roster HandleId)) :
      (sets.modify p (·.erase h)).modify q (·.erase k) =
        (sets.modify q (·.erase k)).modify p (·.erase h) := by
    apply Array.ext_getElem?
    intro n
    simp only [Array.getElem?_modify]
    split <;> split <;> simp [Function.comp_def, Roster.erase_comm]
  rw [supersede_eq (s.supersede p c h) q d k, supersede_eq (s.supersede q d k) p c h, at_d, at_c,
    supersede_eq s p c h, supersede_eq s q d k]
  dsimp only
  congr 1
  · split <;> split <;> simp [pins]
  · exact Array.setIfInBounds_comm _ _ other

theorem discard_comm (s : Session) {a b : WeakReference}
    (apart : ∀ c, a.cell? = some c → b.cell? = some c → a = b) :
    (s.discard a).discard b = (s.discard b).discard a := by
  by_cases same : a = b
  · rw [same]
  cases bound_a : a.binding with
  | none => simp only [discard, bound_a]
  | some d =>
    cases bound_b : b.binding with
    | none => simp only [discard, bound_b]
    | some e =>
      have other : d.cell ≠ e.cell := by
        intro shared
        refine same (apart d.cell (WeakReference.cell?_of_binding bound_a) ?_)
        rw [shared]
        exact WeakReference.cell?_of_binding bound_b
      simp only [discard, bound_a, bound_b]
      exact s.supersede_comm other _ _ _ _

/-- References that do not share cells are let go of in any order. -/
theorem discardAll_perm (s : Session) {rs rs' : List WeakReference} (perm : rs.Perm rs')
    (apart : ∀ a ∈ rs, ∀ b ∈ rs, ∀ c, a.cell? = some c → b.cell? = some c → a = b) :
    s.discardAll rs = s.discardAll rs' :=
  perm.foldl_eq' (fun a among b there t => t.discard_comm (apart a among b there)) s

end LettingGo

/-- Two sessions that differ at most in what is on record and in the order of dead lists. -/
structure Alike (s t : Session) : Prop where
  alive : t.alive = s.alive
  runtimes : t.runtimes = s.runtimes
  handles : t.handles = s.handles
  pinSets : t.pinSets = s.pinSets
  cells : t.cells = s.cells
  collectors : t.collectors = s.collectors
  refs : t.refs = s.refs
  /-- As many maps were made. -/
  made : t.maps.size = s.maps.size
  maps : ∀ m, Option.Rel WeakValueMap.SameButOrder (s.map? m) (t.map? m)

/-- Results with the same answer whose sessions are alike. -/
structure AlikeResults {α : Type} (x y : Session × α) : Prop where
  session : Alike x.1 y.1
  answer : y.2 = x.2

namespace Alike
variable {s t : Session}

theorem refl (s : Session) : Alike s s := by
  refine ⟨rfl, rfl, rfl, rfl, rfl, rfl, rfl, rfl, fun m => ?_⟩
  cases s.map? m with
  | none => exact .none
  | some map => exact .some (.refl map)

section Views
variable (alike : Alike s t)
include alike

theorem cell (c : Nat) : t.cell c = s.cell c := by
  unfold Session.cell
  rw [alike.cells]

theorem pinned (p : Nat) : t.pinned p = s.pinned p := by
  unfold Session.pinned
  rw [alike.pinSets]

theorem collector? (i : Nat) : t.collector? i = s.collector? i :=
  collector?_congr alike.collectors i

theorem ref? (r : Nat) : t.ref? r = s.ref? r := by
  unfold Session.ref?
  rw [alike.refs]

theorem isBound (r : WeakReference) : t.isBound r = s.isBound r :=
  isBound_congr fun c _ => alike.cell c

theorem isAlive (x : InstanceId) : t.isAlive x = s.isAlive x := by
  unfold Session.isAlive
  rw [alike.alive]

/-- A map is gone in both, or it is there in both and the same but for the order. -/
theorem map_cases (m : Nat) : (s.map? m = none ∧ t.map? m = none) ∨
    ∃ map map', s.map? m = some map ∧ t.map? m = some map' ∧
      WeakValueMap.SameButOrder map map' := by
  have same := alike.maps m
  generalize s.map? m = x at same ⊢
  generalize t.map? m = y at same ⊢
  cases same with
  | none => exact Or.inl ⟨rfl, rfl⟩
  | some same => exact Or.inr ⟨_, _, rfl, rfl, same⟩

theorem entries? (m : Nat) : t.entries? m = s.entries? m := by
  unfold Session.entries?
  rcases alike.map_cases m with ⟨here, there⟩ | ⟨map, map', here, there, same⟩
  · rw [here, there]
  · rw [here, there, Option.map_some, Option.map_some, same.entries]

theorem entry? (m : Nat) (key : String) : t.entry? m key = s.entry? m key := by
  rw [entry?_eq, entry?_eq, alike.entries?]

end Views

section Changes
variable (alike : Alike s t)
include alike

theorem emit (e e' : Event) : Alike (s.emit e) (t.emit e') := { alike with }

theorem emitAll (es es' : List Event) : Alike (s.emitAll es) (t.emitAll es') := by
  rw [emitAll_eq, emitAll_eq]
  exact { alike with }

theorem logRun (f f' : Finalizer) : Alike (s.logRun f) (t.logRun f') := { alike with }

theorem modifyPins (p : Nat) (f : Roster HandleId → Roster HandleId) :
    Alike (s.modifyPins p f) (t.modifyPins p f) :=
  { alike with pinSets := congrArg (·.modify p f) alike.pinSets }

theorem setCell (c : Nat) (state : Cell ObjectRef) :
    Alike (s.setCell c state) (t.setCell c state) :=
  { alike with cells := congrArg (·.setIfInBounds c state) alike.cells }

theorem newCell : Alike s.newCell.1 t.newCell.1 :=
  { alike with cells := congrArg (·.push .pending) alike.cells }

theorem modifyCollector (i : Nat) (f : Collector → Collector) :
    Alike (s.modifyCollector i f) (t.modifyCollector i f) :=
  { alike with collectors := congrArg (·.modify i (Option.map f)) alike.collectors }

theorem modifyHeap (i : Nat) (f : Heap Finalizer → Heap Finalizer) :
    Alike (s.modifyHeap i f) (t.modifyHeap i f) := alike.modifyCollector i _

theorem setRef (r : Nat) (ref : Option WeakReference) : Alike (s.setRef r ref) (t.setRef r ref) :=
  { alike with refs := congrArg (·.setIfInBounds r ref) alike.refs }

theorem addRef (ref : Option WeakReference) : Alike (s.addRef ref) (t.addRef ref) :=
  { alike with refs := congrArg (·.push ref) alike.refs }

theorem setMap (m : Nat) {map map' : Option WeakValueMap}
    (same : Option.Rel WeakValueMap.SameButOrder map map') :
    Alike (s.setMap m map) (t.setMap m map') :=
  { alike with
    made := by
      unfold Session.setMap
      simp only [Array.size_setIfInBounds]
      exact alike.made
    maps := fun x => by
      rw [map?_setMap, map?_setMap, alike.made]
      split
      · exact same
      · exact alike.maps x }

theorem modifyMap (m : Nat) {f : WeakValueMap → WeakValueMap}
    (keeps : ∀ {map map'}, WeakValueMap.SameButOrder map map' →
      WeakValueMap.SameButOrder (f map) (f map')) :
    Alike (s.modifyMap m f) (t.modifyMap m f) :=
  { alike with
    made := by
      unfold Session.modifyMap
      simp only [Array.size_modify]
      exact alike.made
    maps := fun x => by
      rw [map?_modifyMap, map?_modifyMap]
      split
      · rcases alike.map_cases x with ⟨here, there⟩ | ⟨map, map', here, there, same⟩
        · rw [here, there]
          exact .none
        · rw [here, there]
          exact .some (keeps same)
      · exact alike.maps x }

theorem addMap : Alike s.addMap t.addMap := by
  have last (u : Session) (x : Nat) :
      u.addMap.map? x = if x = u.maps.size then some {} else u.map? x := by
    unfold Session.map? Session.addMap
    rw [Array.getElem?_push]
    split <;> rfl
  exact
    { alike with
      made := by
        unfold Session.addMap
        simp only [Array.size_push, alike.made]
      maps := fun x => by
        rw [last, last, alike.made]
        split
        · exact .some (.refl _)
        · exact alike.maps x }

theorem recordInitialized (x : InstanceId) :
    Alike (s.recordInitialized x) (t.recordInitialized x) :=
  { alike with alive := congrArg (·.insert x) alike.alive }

theorem recordTornDown (x : InstanceId) : Alike (s.recordTornDown x) (t.recordTornDown x) := by
  unfold Session.recordTornDown
  rw [alike.alive]
  split
  · exact { alike with alive := rfl }
  · exact alike

theorem freshHandle : AlikeResults s.freshHandle t.freshHandle :=
  ⟨{ alike with handles := congrArg (· + 1) alike.handles },
    congrArg (fun n => (⟨n + 1⟩ : HandleId)) alike.handles⟩

theorem freshRuntime : AlikeResults s.freshRuntime t.freshRuntime :=
  ⟨{ alike with runtimes := congrArg (· + 1) alike.runtimes },
    congrArg (fun n => (⟨n + 1⟩ : InstanceId)) alike.runtimes⟩

theorem newPinSet : AlikeResults s.newPinSet t.newPinSet :=
  ⟨{ alike with pinSets := congrArg (·.push ∅) alike.pinSets },
    congrArg Array.size alike.pinSets⟩

end Changes

section Delivery
variable (alike : Alike s t) (focus : Focus) (roots : Nat)
include alike

theorem supersede (pins c : Nat) (handle : HandleId) :
    Alike (s.supersede pins c handle) (t.supersede pins c handle) := by
  unfold Session.supersede
  dsimp only
  rw [alike.cell]
  split
  · exact (alike.setCell c _).modifyPins pins _
  · exact alike.setCell c _

theorem disarm (r : WeakReference) : Alike (s.disarm roots r) (t.disarm roots r) := by
  unfold Session.disarm
  split
  · exact (alike.supersede roots _ _).emit _ _
  · exact alike

theorem discard (r : WeakReference) : Alike (s.discard r) (t.discard r) := by
  unfold Session.discard
  split
  · exact alike.supersede _ _ _
  · exact alike

theorem discardAll (rs : List WeakReference) : Alike (s.discardAll rs) (t.discardAll rs) := by
  induction rs generalizing s t with
  | nil => exact alike
  | cons r rest ih => exact ih (alike.discard r)

theorem releaseRef (r : Nat) : Alike (s.releaseRef roots r) (t.releaseRef roots r) := by
  unfold Session.releaseRef
  rw [alike.ref?]
  split
  · exact (alike.disarm roots _).setRef r _
  · exact alike

theorem dropRef (r : Nat) : Alike (s.dropRef r) (t.dropRef r) := by
  unfold Session.dropRef
  rw [alike.ref?]
  split
  · exact (alike.discard _).setRef r none
  · exact alike

theorem dropMap (m : Nat) : Alike (s.dropMap m) (t.dropMap m) := by
  unfold Session.dropMap
  rcases alike.map_cases m with ⟨here, there⟩ | ⟨map, map', here, there, same⟩
  · rw [here, there]
    exact alike
  · rw [here, there]
    unfold WeakValueMap.references
    dsimp only
    rw [same.entries]
    exact (alike.discardAll _).setMap m .none

theorem onRef {r : Nat} {f g : WeakReference → Session × ActionReply}
    (same : ∀ ref, AlikeResults (f ref) (g ref)) :
    AlikeResults (s.onRef focus r f) (t.onRef focus r g) := by
  unfold Session.onRef
  split
  · exact ⟨alike, rfl⟩
  · rw [alike.ref?]
    split
    · exact same _
    · exact ⟨alike, rfl⟩

theorem onMap {m : Nat} {f g : WeakValueMap → Session × ActionReply}
    (same : ∀ {map map'}, WeakValueMap.SameButOrder map map' → AlikeResults (f map) (g map')) :
    AlikeResults (s.onMap focus m f) (t.onMap focus m g) := by
  unfold Session.onMap
  split
  · exact ⟨alike, rfl⟩
  · rcases alike.map_cases m with ⟨here, there⟩ | ⟨map, map', here, there, but_order⟩
    · rw [here, there]
      exact ⟨alike, rfl⟩
    · rw [here, there]
      exact same but_order

theorem act (a : Action) : AlikeResults (s.act focus roots a) (t.act focus roots a) := by
  cases a with
  | pin handle => exact ⟨alike.modifyPins roots _, rfl⟩
  | unpin handle => exact ⟨alike.modifyPins roots _, rfl⟩
  | isAlive x => exact ⟨alike, congrArg ActionReply.flag (alike.isAlive x)⟩
  | pinCount pins =>
    refine ⟨alike, ?_⟩
    exact congrArg (fun set : Roster HandleId => ActionReply.count set.size) (alike.pinned pins)
  | isBound r =>
    exact alike.onRef focus fun ref => ⟨alike, congrArg ActionReply.flag (alike.isBound ref)⟩
  | release r => exact alike.onRef focus fun _ => ⟨alike.releaseRef roots r, rfl⟩
  | dropRef r => exact alike.onRef focus fun _ => ⟨alike.dropRef r, rfl⟩
  | mapSize m =>
    exact alike.onMap focus fun same =>
      ⟨alike, congrArg (fun entries => ActionReply.count entries.size) same.entries⟩
  | dropMap m => exact alike.onMap focus fun _ => ⟨alike.dropMap m, rfl⟩

theorem actAll (actions : List Action) :
    AlikeResults (s.actAll focus roots actions) (t.actAll focus roots actions) := by
  induction actions generalizing s t with
  | nil => exact ⟨alike, rfl⟩
  | cons a rest ih =>
    have first := alike.act focus roots a
    have others := ih first.session
    refine ⟨others.session, ?_⟩
    change (t.act focus roots a).2 :: _ = (s.act focus roots a).2 :: _
    rw [first.answer, others.answer]

theorem endBinding (c : Nat) (handle : HandleId) :
    Alike (s.endBinding roots c handle) (t.endBinding roots c handle) := by
  unfold Session.endBinding
  dsimp only
  rw [alike.cell]
  split
  · exact ((alike.setCell c _).modifyPins roots _).emit _ _
  · exact alike.setCell c _

theorem deliver (f : Finalizer) : Alike (s.deliver focus roots f) (t.deliver focus roots f) := by
  have logged := alike.logRun f f
  cases f with
  | endBinding c handle => exact logged.endBinding roots c handle
  | report m key handle => exact logged.modifyMap m fun same => same.report key handle
  | user label actions => exact { (logged.actAll focus roots actions).session with }

theorem deliverAll (due : List Finalizer) :
    Alike (s.deliverAll focus roots due) (t.deliverAll focus roots due) := by
  induction due generalizing s t with
  | nil => exact alike
  | cons f rest ih => exact ih (alike.deliver focus roots f)

end Delivery

section Heaps
variable (alike : Alike s t) (focus : Focus) (i : Nat)
include alike

theorem newHeap (config : HeapConfig) : AlikeResults (s.newHeap config) (t.newHeap config) := by
  have runtime := alike.freshRuntime
  have pins := runtime.session.newPinSet
  refine ⟨?_, runtime.answer⟩
  unfold Session.newHeap
  dsimp only
  rw [runtime.answer, pins.answer]
  refine recordInitialized ?_ _
  exact { pins.session with
    collectors := congrArg (Array.push · _) pins.session.collectors }

theorem deliverDue (roots : Nat) (due : List Finalizer) :
    Alike (s.deliverDue focus i roots due) (t.deliverDue focus i roots due) :=
  (alike.deliverAll focus roots due).modifyHeap i _

theorem settle (outcome : Heap Finalizer × List (Reclaimed Finalizer)) :
    Alike (s.settle focus i outcome) (t.settle focus i outcome) :=
  ((alike.modifyHeap i _).emitAll _ _).deliverDue focus i _ _

theorem alloc (kind : ObjectKind) : AlikeResults (s.alloc i kind) (t.alloc i kind) := by
  unfold Session.alloc
  rw [alike.collector?]
  split
  · exact ⟨alike, rfl⟩
  · split
    · rename_i heap r _
      exact ⟨alike.modifyHeap i fun _ => heap, rfl⟩
    · exact ⟨alike, rfl⟩

theorem releaseRoot (r : ObjectRef) : Alike (s.releaseRoot i r) (t.releaseRoot i r) := by
  unfold Session.releaseRoot
  rw [alike.collector?]
  split
  · exact alike
  · exact alike.settle .idle i _

theorem collect : AlikeResults (s.collect focus i) (t.collect focus i) := by
  unfold Session.collect
  rw [alike.collector?]
  split
  · exact ⟨alike, rfl⟩
  · exact ⟨((alike.settle focus i _).modifyHeap i _).emit _ _, rfl⟩

theorem attach (heap : Heap Finalizer) (r : ObjectRef) (f : Finalizer) :
    AlikeResults (s.attach focus i heap r f) (t.attach focus i heap r f) := by
  unfold Session.attach
  split
  · rename_i kept _ _
    exact ⟨alike.modifyHeap i fun _ => kept, rfl⟩
  · exact ⟨alike.deliverDue focus i _ _, rfl⟩
  · exact ⟨alike, rfl⟩

theorem define (r : ObjectRef) (f : Finalizer) :
    AlikeResults (s.define focus i r f) (t.define focus i r f) := by
  have advanced := alike.modifyCollector i Collector.advance
  unfold Session.define
  rw [alike.collector?]
  split
  · exact ⟨alike, rfl⟩
  · dsimp only
    split
    · exact advanced.attach focus i _ r f
    · exact ⟨advanced, rfl⟩
    · exact ⟨advanced.deliver focus _ f, rfl⟩
    · exact ⟨advanced.modifyCollector i _, rfl⟩
    · exact ⟨advanced, rfl⟩

theorem fireStashed (position : Nat) :
    AlikeResults (s.fireStashed i position) (t.fireStashed i position) := by
  unfold Session.fireStashed
  rw [alike.collector?]
  split
  · exact ⟨alike, rfl⟩
  · split
    · exact ⟨alike, rfl⟩
    · exact ⟨(alike.modifyCollector i _).deliver .idle _ _, rfl⟩

theorem close : Alike { s with collectors := s.collectors.setIfInBounds i none }
    { t with collectors := t.collectors.setIfInBounds i none } :=
  { alike with collectors := congrArg (·.setIfInBounds i none) alike.collectors }

theorem shutDownIn (heap : Heap Finalizer) (groups : List (ObjectRef × List Finalizer)) :
    Alike (s.shutDownIn i heap groups) (t.shutDownIn i heap groups) := by
  have recorded := alike.recordTornDown heap.runtime
  unfold Session.shutDownIn
  dsimp only
  split
  · have delivered := (recorded.modifyHeap i Heap.emptied).deliverAll .idle heap.pins
      (heap.pendingDirect ++ groups.flatMap Prod.snd)
    exact close (delivered.modifyPins heap.pins fun _ => ∅) i
  · exact close ((recorded.emit _ _).modifyPins heap.pins fun _ => ∅) i

theorem shutDown : Alike (s.shutDown i) (t.shutDown i) := by
  unfold Session.shutDown
  rw [alike.collector?]
  split
  · exact alike.shutDownIn i _ _
  · exact alike

end Heaps

end Alike

end Session

end WeakRefs
