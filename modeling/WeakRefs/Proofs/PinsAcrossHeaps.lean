import Mathlib.Logic.Function.Basic
import WeakRefs.Proofs.Unbinding.Operations
import WeakRefs.Proofs.PinDiscipline

/-!
# Pins over several heaps

A pin in the pin set of a heap is that of a binding against this heap, as long as every reference
that is bound is used, and bound anew, through the heap of its binding.
-/

namespace WeakRefs

/-- No two heaps share a pin set, and none has one that is still to be made. -/
structure PinsApart (m : Moment) : Prop where
  apart : ∀ j k c d, m.session.collector? j = some c → m.session.collector? k = some d →
    c.heap.pins = d.heap.pins → j = k
  made : ∀ j c, m.session.collector? j = some c → c.heap.pins < m.session.pinSets.size

namespace PinsApart

theorem move {m m' : Moment} {t : Tag} (apart : PinsApart m) (move : Move t m m') :
    PinsApart m' where
  apart j k c' d' at_j at_k same := by
    rcases move.evolves.descends at_j with ⟨c, here, becomes⟩ | ⟨_, last, _, new⟩
    · rcases move.evolves.descends at_k with ⟨d, here', becomes'⟩ | ⟨_, _, _, new⟩
      · rw [becomes.pins, becomes'.pins] at same
        exact apart.apart j k c d here here' same
      · rw [becomes.pins, new] at same
        exact absurd same (Nat.ne_of_lt (apart.made j c here))
    · rcases move.evolves.descends at_k with ⟨d, here', becomes'⟩ | ⟨_, last', _, _⟩
      · rw [becomes'.pins, new] at same
        exact absurd same.symm (Nat.ne_of_lt (apart.made k d here'))
      · exact last.trans last'.symm
  made j c' there := by
    rcases move.evolves.descends there with ⟨c, here, becomes⟩ | ⟨tag, _, _, new⟩
    · rw [becomes.pins]
      exact Nat.lt_of_lt_of_le (apart.made j c here) move.size_pinSets_le
    · subst tag
      cases move with
      | newHeap _ config =>
        rw [new]
        simp [Session.newHeap, Session.newPinSet, Session.freshRuntime, Session.recordInitialized,
          Session.emit]

theorem run {s : Session} (apart : PinsApart ⟨s, none, [], []⟩)
    (ownership : Ownership ⟨s, none, [], []⟩)
    (ops : List Op) : PinsApart ⟨s.after ops, none, [], []⟩ :=
  Session.after_keeps ownership (fun _ _ _ _ _ _ _ _ move apart => apart.move move) apart

theorem empty : PinsApart ⟨{}, none, [], []⟩ :=
  ⟨fun j k c d here => by simp [Session.collector?] at here,
    fun j c here => by simp [Session.collector?] at here⟩

end PinsApart

namespace Op

/-- Whether pins come and go with bindings only. -/
def leavesPins : Op → Bool
  | pin _ _ | unpin _ _ | clearPins _ => false
  | define _ _ label actions | refDefine _ _ label actions =>
    (Finalizer.user label actions).leavesPins
  | _ => true

end Op

namespace Session

/-- An operation uses references that are bound, and binds them anew, through the heap of their
binding, and so do the finalizers that it runs. -/
def UsesOwnHeaps (s : Session) : Op → Prop
  | .shutDown i => s.ShutsDownOnOwn i
  | .release i obj => s.ReleasesRootOnOwn i obj
  | .collect i => s.CollectsOnOwn .idle i
  | .define i obj label actions => s.DefinesOnOwn .idle i obj (.user label actions)
  | .fire i position => s.FiresOnOwn i position
  | .bind i r _ | .read i r | .releaseRef i r => s.IsHeapAt i (.ref r)
  | .object i r =>
    s.IsHeapAt i (.ref r) ∧ ∀ ref, s.ref? r = some ref → s.LooksOnOwn (.reference r) i ref
  | .refresh i r => ∀ ref, s.ref? r = some ref → s.RefreshesOnOwn (.reference r) i ref
  | .refDefine i r label actions =>
    s.IsHeapAt i (.ref r) ∧ ∀ ref, s.ref? r = some ref → s.LooksOnOwn (.reference r) i ref ∧
      ∀ t, (s.object (.reference r) i ref).2 = some t →
        (s.object (.reference r) i ref).1.DefinesOnOwn (.reference r) i t (.user label actions)
  | .mapInsert i m key _ | .mapRemove i m key => s.IsHeapAt i (.entry m key)
  | .mapGet i m key =>
    s.IsHeapAt i (.entry m key) ∧ ∀ ref, Session.entry? (s.pruneMap m) m key = some ref →
      (s.pruneMap m).LooksOnOwn (.map m) i ref
  | .mapUpdate i m => ∀ key, s.IsHeapAt i (.entry m key)
  | _ => True

/-- Every operation of a run leaves pins alone and uses references through their own heaps. -/
def KeepsToOwnHeaps (s : Session) : List Op → Prop
  | [] => True
  | op :: rest => op.leavesPins = true ∧ s.UsesOwnHeaps op ∧ KeepsToOwnHeaps (s.perform op).1 rest

/-- What is there in `s` is there in `s'` as it was, or it ended; bindings may have come. -/
structure OwnersExtend (owner owner' : Nat → HandleId × Nat) (s s' : Session) : Prop where
  held : ∀ p a b, s'.held p = some a → a.binding = some b → s.held p = some a
  owns : ∀ a, s.Owns owner a → s'.Owns owner' a
  ofHeap : ∀ i a, s.Owns owner a → s.IsHeapOf i a → s'.IsHeapOf i a
  pinsOwned : PinsOwned owner s → PinsOwned owner' s'

variable {owner owner' owner'' : Nat → HandleId × Nat} {s s' s'' : Session} {i m : Nat}
variable {c c' : Collector} {handle : HandleId} {target : ObjectRef} {ran : Bool} {a : Affiliation}
variable {key : String}

theorem Unbinds.extended (unbinds : Unbinds owner s s') : OwnersExtend owner owner s s' where
  held := unbinds.held
  owns _ owns := unbinds.owns owns
  ofHeap _ _ _ ofHeap := unbinds.isHeapOf ofHeap
  pinsOwned pinsOwned := pinsOwned.unbinds unbinds

namespace OwnersExtend

theorem refl (owner : Nat → HandleId × Nat) (s : Session) : OwnersExtend owner owner s s :=
  (Unbinds.refl owner s).extended

theorem trans (first : OwnersExtend owner owner' s s') (next : OwnersExtend owner' owner'' s' s'') :
    OwnersExtend owner owner'' s s'' where
  held p a b there binding := first.held p a b (next.held p a b there binding) binding
  owns a owns := next.owns a (first.owns a owns)
  ofHeap i a owns ofHeap := next.ofHeap i a (first.owns a owns) (first.ofHeap i a owns ofHeap)
  pinsOwned pinsOwned := next.pinsOwned (first.pinsOwned pinsOwned)

theorem isHeapAt (extended : OwnersExtend owner owner' s s') (pinsOwned : PinsOwned owner s)
    {p : Place} (ofHeap : s.IsHeapAt i p) : s'.IsHeapAt i p := by
  intro a there b k binding
  have before := extended.held p a b there binding
  exact extended.ofHeap i a (pinsOwned.owns p a before) (ofHeap a before) b k binding

end OwnersExtend

section Arrival
variable (here : s.collector? i = some c)
variable (received : c.Receives target (.endBinding s.cells.size handle) c' ran a)
include here received

theorem pinsOf_arrive (k : Nat) : (s.arrive i c' handle target ran a).pinsOf k = s.pinsOf k := by
  change Option.map _ ((s.setCollector i c').collector? k) = Option.map _ (s.collector? k)
  rw [s.collector?_setCollector here]
  split
  · rename_i same
    rw [same, here]
    exact congrArg some received.pins.1
  · rfl

omit here in
theorem mem_pinned_arrive {P : Nat} {h : HandleId}
    (there : h ∈ (s.arrive i c' handle target ran a).pinned P) :
    h ∈ s.pinned P ∨ (ran = false ∧ P = c.heap.pins ∧ h = handle) := by
  cases ran with
  | true => exact Or.inl there
  | false =>
    rcases (s.mem_pinned_pin c'.heap.pins P handle h).mp there with ⟨at_P, _, named⟩ | before
    · exact Or.inr ⟨rfl, at_P.symm.trans received.pins.1, named⟩
    · exact Or.inl before

variable (old : ∀ d, d < s.cells.size → owner' d = owner d)
variable (new : owner' s.cells.size = (handle, c.heap.pins))
include old

omit here received in
theorem owns_arrive {b : WeakReference} (owns : s.Owns owner b) :
    (s.arrive i c' handle target ran a).Owns owner' b := by
  intro b' binding
  obtain ⟨inside, own⟩ := owns b' binding
  have grown : (s.arrive i c' handle target ran a).cells.size = s.cells.size + 1 :=
    Array.size_push _
  exact ⟨grown ▸ Nat.lt_succ_of_lt inside, (old _ inside).trans own⟩

include new

/-- The new cell is that of the new pin. -/
theorem pinsOwned_arrive (pinsOwned : PinsOwned owner s) :
    PinsOwned owner' (s.arrive i c' handle target ran a) where
  pins P h there := by
    rcases mem_pinned_arrive received there with before | ⟨not_ran, at_P, named⟩
    · obtain ⟨d, own, bound⟩ := pinsOwned.pins P h before
      have inside : d < s.cells.size := by
        refine Nat.lt_of_not_le fun outside => ?_
        rw [s.cell_of_size_le outside] at bound
        cases bound
      refine ⟨d, (old d inside).trans own, ?_⟩
      rw [cell_arrive, if_neg (Nat.ne_of_lt inside)]
      exact bound
    · refine ⟨s.cells.size, ?_, ?_⟩
      · rw [new, at_P, named]
      · rw [cell_arrive, if_pos rfl, not_ran]
        rfl
  heap P h there := by
    rcases mem_pinned_arrive received there with before | ⟨_, at_P, _⟩
    · obtain ⟨k, mine⟩ := pinsOwned.heap P h before
      exact ⟨k, (pinsOf_arrive here received k).trans mine⟩
    · refine ⟨i, (pinsOf_arrive here received i).trans ?_⟩
      rw [Session.pinsOf, here, at_P]
      rfl
  owns p b there := owns_arrive old (pinsOwned.owns p b there)
  fits j d f there keeps := by
    have grown : (s.arrive i c' handle target ran a).cells.size = s.cells.size + 1 :=
      Array.size_push _
    rw [grown]
    have still {P : Nat} (fits : f.Fits owner s.cells.size P) :
        f.Fits owner' (s.cells.size + 1) P := by
      refine ⟨fits.1, fun e h named => ?_⟩
      obtain ⟨inside, own⟩ := fits.2 e h named
      exact ⟨Nat.lt_succ_of_lt inside, (old e inside).trans own⟩
    have there : (s.setCollector i c').collector? j = some d := there
    rw [s.collector?_setCollector here] at there
    split at there
    · cases there
      rw [received.pins.1]
      rcases received.kept_cases keeps with same | kept
      · refine ⟨same ▸ rfl, fun e h named => ?_⟩
        rw [same] at named
        cases named
        exact ⟨Nat.lt_succ_self _, new⟩
      · exact still (pinsOwned.fits i c f here kept)
    · exact still (pinsOwned.fits j d f there keeps)

theorem ownersExtend_arrive : OwnersExtend owner owner' s (s.arrive i c' handle target ran a) where
  held _ _ _ there _ := there
  owns _ owns := owns_arrive old owns
  ofHeap j b owns ofHeap b' k binding bound there := by
    rw [cell_arrive, if_neg (Nat.ne_of_lt (owns b' binding).1)] at bound
    exact ofHeap b' k binding bound ((pinsOf_arrive here received k).symm.trans there)
  pinsOwned := pinsOwned_arrive here received old new

end Arrival

section Binding
variable (pinsOwned : PinsOwned owner s)
include pinsOwned

/-- A bind through the heap of the old binding, if there is one, ends that and brings another. -/
theorem ownersExtend_bind {ref : WeakReference} (owns : s.Owns owner ref)
    (ofHeap : s.IsHeapOf i ref) (focus : Focus) (target : ObjectRef) : ∃ owner',
      OwnersExtend owner owner' s (s.bind focus i ref target).1 ∧
      (s.bind focus i ref target).1.Owns owner' (s.bind focus i ref target).2.1 := by
  cases here : s.collector? i with
  | none =>
    unfold bind
    rw [here]
    exact ⟨owner, .refl owner s, owns⟩
  | some c =>
    rcases s.bind_cases here focus ref (fun b binding => (owns b binding).1) target with
      ⟨e, refused⟩ | ⟨c', ran, a, t, received, arrived, done⟩
    · have advanced : Unbinds owner s (s.setCollector i c.advance) :=
        .setCollector here rfl fun f keeps => Or.inl keeps
      have told := advanced.trans (.emitAll _ (rejection ref.id e))
      rw [refused]
      exact ⟨owner, told.extended, told.owns owns⟩
    · have disarmed := Unbinds.disarm pinsOwned owns (ofHeap.isPinSetOf here)
      have here' : (s.disarm c.heap.pins ref).collector? i = some c :=
        ((s.sameButBindings_disarm _ ref).collector? i).trans here
      rw [← s.size_cells_disarm c.heap.pins ref] at received
      obtain ⟨owner', old, new⟩ : ∃ owner' : Nat → HandleId × Nat,
          (∀ d, d < (s.disarm c.heap.pins ref).cells.size → owner' d = owner d) ∧
          owner' (s.disarm c.heap.pins ref).cells.size = (ref.id, c.heap.pins) :=
        ⟨Function.update owner _ _, fun d inside => Function.update_of_ne (Nat.ne_of_lt inside) _ _,
          Function.update_self _ _ _⟩
      have came := disarmed.extended.trans (ownersExtend_arrive here' received old new)
      have grown : ((s.disarm c.heap.pins ref).arrive i c' ref.id target ran a).cells.size =
          s.cells.size + 1 := by
        rw [← s.size_cells_disarm c.heap.pins ref]
        exact Array.size_push _
      have mine : ((s.disarm c.heap.pins ref).arrive i c' ref.id target ran a).Owns owner'
          { ref with binding := some ⟨s.cells.size, a, c.heap.runtime, c.heap.pins⟩ } := by
        intro b binding
        cases binding
        rw [grown]
        rw [s.size_cells_disarm] at new
        exact ⟨Nat.lt_succ_self _, new⟩
      rw [done]
      refine ⟨owner', ?_⟩
      rcases arrived with arrived | counted
      · rw [arrived]
        exact ⟨came, mine⟩
      · have upkeep : Unbinds owner' ((s.disarm c.heap.pins ref).arrive i c' ref.id target ran a)
            (modifyHeap _ i (·.countRun 1)) := .upkeep i fun _ => .countRun 1
        rw [counted]
        exact ⟨came.trans upkeep.extended, upkeep.owns mine⟩

theorem ownersExtend_bindNew (focus : Focus) (i : Nat) (target : ObjectRef) : ∃ owner',
    OwnersExtend owner owner' s (s.bindNew focus i target).1 ∧
    ∀ ref, (s.bindNew focus i target).2 = .ok ref →
      (s.bindNew focus i target).1.Owns owner' ref := by
  have fresh : Unbinds owner s s.freshHandle.1 := .quiet rfl rfl rfl rfl rfl
  have owns : s.freshHandle.1.Owns owner { id := s.freshHandle.2 } := nofun
  obtain ⟨owner', came, mine⟩ := ownersExtend_bind (pinsOwned.unbinds fresh)
    (i := i) owns nofun focus target
  refine ⟨owner', fresh.extended.trans came, fun ref made => ?_⟩
  unfold bindNew at made ⊢
  dsimp only at made ⊢
  generalize s.freshHandle.1.bind focus i { id := s.freshHandle.2 } target = bound at mine made ⊢
  obtain ⟨t, r, answer⟩ := bound
  cases answer with
  | error e => cases made
  | ok a =>
    cases made
    exact mine

end Binding

/-- References come to places with the bindings that they own. -/
theorem PinsOwned.congr (pinsOwned : PinsOwned owner s) (cells : s'.cells = s.cells)
    (pinned : ∀ P, s'.pinned P = s.pinned P) (collectors : s'.collectors = s.collectors)
    (owns : ∀ p a, s'.held p = some a → s.Owns owner a) : PinsOwned owner s' where
  pins P h there := by
    rw [pinned] at there
    obtain ⟨d, own, bound⟩ := pinsOwned.pins P h there
    refine ⟨d, own, ?_⟩
    unfold Session.cell
    rw [cells]
    exact bound
  heap P h there := by
    rw [pinned] at there
    obtain ⟨k, mine⟩ := pinsOwned.heap P h there
    exact ⟨k, (pinsOf_congr collectors k).trans mine⟩
  owns p a there b binding := by
    rw [cells]
    exact owns p a there b binding
  fits j d f there keeps := by
    rw [cells]
    exact pinsOwned.fits j d f ((collector?_congr collectors j).symm.trans there) keeps

theorem unbinds_modifyCollector (i : Nat) {f : Collector → Collector}
    (same : ∀ c, (f c).heap = c.heap ∧ (f c).stash = c.stash) :
    Unbinds owner s (s.modifyCollector i f) := by
  cases here : s.collector? i with
  | none =>
    rw [modifyCollector_of_gone here]
    exact .refl owner s
  | some c =>
    rw [s.modifyCollector_eq here]
    refine .setCollector here (congrArg Heap.pins (same c).1) fun g keeps => Or.inl ?_
    unfold Collector.Keeps at *
    rw [(same c).1, (same c).2] at keeps
    exact keeps

theorem unbinds_alloc (sound : s.HeapsSound) (i : Nat) (kind : ObjectKind) :
    Unbinds owner s (s.alloc i kind).1 := by
  unfold alloc
  split
  · exact .refl owner s
  · rename_i c here
    split
    · rename_i heap r allocated
      rw [modifyHeap_eq here]
      refine .setCollector here (Heap.same_alloc allocated).1 fun f keeps => Or.inl ?_
      unfold Collector.Keeps at *
      simp only [Heap.pendingOf_alloc (sound i c here) allocated] at keeps
      exact keeps
    · exact .refl owner s

section Operations
variable (pinsOwned : PinsOwned owner s)
include pinsOwned

theorem pinsOwned_newPinSet : PinsOwned owner s.newPinSet.1 := by
  refine pinsOwned.congr rfl (fun P => ?_) rfl pinsOwned.owns
  unfold Session.pinned newPinSet
  simp only [Array.getD_eq_getD_getElem?, Array.getElem?_push]
  split
  · rename_i same
    simp [same]
  · rfl

theorem pinsOwned_newHeap (config : HeapConfig) : PinsOwned owner (s.newHeap config).1 where
  pins := (pinsOwned_newPinSet pinsOwned).pins
  heap P h there := by
    obtain ⟨k, mine⟩ := (pinsOwned_newPinSet pinsOwned).heap P h there
    refine ⟨k, ?_⟩
    obtain ⟨d, here, pins⟩ := Option.map_eq_some_iff.mp mine
    have inside : k < s.collectors.size := s.lt_size_of_collector? here
    rw [Session.pinsOf, collector?_newHeap, if_neg (Nat.ne_of_lt inside)]
    exact mine
  owns := pinsOwned.owns
  fits j d f there keeps := by
    rw [collector?_newHeap] at there
    split at there
    · cases there
      rcases keeps with stashed | ⟨q, pending⟩
      · cases stashed
      · rw [Heap.pendingOf_of_dead _ .empty (by simp [Heap.object?])] at pending
        cases pending
    · exact pinsOwned.fits j d f there keeps

theorem pinsOwned_addRef {x : Option WeakReference} (owns : ∀ a, x = some a → s.Owns owner a) :
    PinsOwned owner (s.addRef x) := by
  refine pinsOwned.congr rfl (fun _ => rfl) rfl fun p a there => ?_
  cases p with
  | ref q =>
    change Session.ref? (Session.addRef _ _) q = some a at there
    rw [ref?_addRef] at there
    split at there
    · exact owns a there
    · exact pinsOwned.owns (.ref q) a there
  | entry x key => exact pinsOwned.owns (.entry x key) a there
  | hand => cases there

theorem pinsOwned_addRefTo (i : Nat) (target : ObjectRef) :
    ∃ owner', PinsOwned owner' (s.addRefTo i target).1 := by
  obtain ⟨owner', came, mine⟩ := ownersExtend_bindNew pinsOwned .idle i target
  refine ⟨owner', ?_⟩
  unfold addRefTo
  dsimp only
  split
  · rename_i ref made
    refine pinsOwned_addRef (came.pinsOwned pinsOwned) fun a same => ?_
    cases same
    exact mine ref made
  · exact pinsOwned_addRef (came.pinsOwned pinsOwned) nofun

theorem pinsOwned_bindRef {r : Nat} {ref : WeakReference} (there : s.ref? r = some ref)
    (ofHeap : s.IsHeapAt i (.ref r)) (target : ObjectRef) :
    ∃ owner', PinsOwned owner' (s.bindRef i r ref target).1 := by
  obtain ⟨owner', came, mine⟩ :=
    ownersExtend_bind pinsOwned (pinsOwned.owns (.ref r) ref there) (ofHeap ref there)
      (.reference r) target
  refine ⟨owner', (came.pinsOwned pinsOwned).congr rfl (fun _ => rfl) rfl fun p a now => ?_⟩
  rcases held_setRef now with new | before
  · cases new
    exact mine
  · exact (came.pinsOwned pinsOwned).owns p a before

theorem pinsOwned_insert {ref : WeakReference} (owns : s.Owns owner ref) :
    PinsOwned owner (s.modifyEntries m (·.insert key ref)) := by
  refine pinsOwned.congr rfl (fun _ => rfl) rfl fun p a there => ?_
  cases p with
  | ref r => exact pinsOwned.owns (.ref r) a there
  | entry x k =>
    change Session.entry? (Session.modifyEntries _ m _) x k = some a at there
    rw [entry?_modifyEntries] at there
    split at there
    · obtain ⟨entries, before, inside⟩ := Option.bind_eq_some_iff.mp there
      rw [Table.get?_insert] at inside
      split at inside
      · cases inside
        exact owns
      · refine pinsOwned.owns (.entry x k) a ?_
        exact (entry?_eq _ x k).trans (Option.bind_eq_some_iff.mpr ⟨entries, before, inside⟩)
    · exact pinsOwned.owns (.entry x k) a there
  | hand => cases there

theorem pinsOwned_placeEntry {P : Nat} (here : s.pinsOf i = some P)
    (ofHeap : s.IsHeapAt i (.entry m key)) {ref : WeakReference} (owns : s.Owns owner ref) :
    PinsOwned owner (s.placeEntry P m key ref) := by
  obtain ⟨c, there, same⟩ := Option.map_eq_some_iff.mp here
  unfold placeEntry
  dsimp only
  split
  · rename_i previous before
    have disarmed := Unbinds.disarm pinsOwned (pinsOwned.owns (.entry m key) previous before)
      ((ofHeap previous before).isPinSetOf there)
    rw [same] at disarmed
    exact pinsOwned_insert (pinsOwned.unbinds disarmed) (disarmed.owns owns)
  · exact pinsOwned_insert pinsOwned owns

theorem pinsOwned_mapInsert (ofHeap : s.IsHeapAt i (.entry m key)) (value : ObjectRef) :
    ∃ owner', PinsOwned owner' (s.mapInsert i m key value).1 := by
  unfold mapInsert
  split
  · rename_i c map here there
    have pruned := Unbinds.pruneMap pinsOwned m
    obtain ⟨owner', came, mine⟩ := ownersExtend_bindNew (pinsOwned.unbinds pruned) (.map m) i value
    have along := pruned.extended.trans came
    dsimp only
    split
    · exact ⟨owner', along.pinsOwned pinsOwned⟩
    · rename_i ref made
      have pinsOwned' := along.pinsOwned pinsOwned
      have reported := Unbinds.define pinsOwned' (.map m) i value (f := .report m key ref.id)
        (fun _ _ => ⟨rfl, nofun⟩) fun _ _ _ => trivial
      split
      · exact ⟨owner', pinsOwned'.unbinds (reported.trans
          (.discard (reported.owns (mine ref made))))⟩
      · refine ⟨owner', pinsOwned_placeEntry (i := i) (pinsOwned'.unbinds reported) ?_
          (reported.isHeapAt (along.isHeapAt pinsOwned ofHeap)) (reported.owns (mine ref made))⟩
        rw [pinsOf_define, bindNew, pinsOf_bind]
        exact (congrArg (Option.map _) (s.collector?_pruneMap m i)).trans (by rw [here]; rfl)
  · exact ⟨owner, pinsOwned⟩

theorem pinsOwned_withRef {r : Nat} {f : WeakReference → Session × Reply}
    (tidies : ∀ ref, s.ref? r = some ref → ∃ owner', PinsOwned owner' (f ref).1) :
    ∃ owner', PinsOwned owner' (s.withRef r f).1 := by
  unfold withRef
  split
  · rename_i ref there
    exact tidies ref there
  · exact ⟨owner, pinsOwned⟩

/-- An operation that leaves pins alone and uses references through their own heaps keeps
`PinsOwned`. -/
theorem pinsOwned_perform (sound : s.HeapsSound) {op : Op} (leaves : op.leavesPins = true)
    (ofHeap : s.UsesOwnHeaps op) : ∃ owner', PinsOwned owner' (s.perform op).1 := by
  have unbinding {s' : Session} (unbinds : Unbinds owner s s') : ∃ owner', PinsOwned owner' s' :=
    ⟨owner, pinsOwned.unbinds unbinds⟩
  cases op with
  | newHeap config => exact ⟨owner, pinsOwned_newHeap pinsOwned config⟩
  | shutDown i => exact unbinding (.shutDown pinsOwned ofHeap)
  | alloc i kind =>
    have made : Unbinds owner s (s.alloc i kind).1 := unbinds_alloc sound i kind
    unfold perform
    dsimp only
    split <;> exact unbinding made
  | retain i obj => exact unbinding (.upkeep i fun _ => .retain obj)
  | release i obj => exact unbinding (.releaseRoot pinsOwned ofHeap)
  | collect i => exact unbinding (.collect pinsOwned ofHeap)
  | define i obj label actions =>
    exact unbinding (.define pinsOwned .idle i obj (fun _ _ => ⟨leaves, nofun⟩) ofHeap)
  | script i directives => exact unbinding (unbinds_modifyCollector i fun _ => ⟨rfl, rfl⟩)
  | fire i position => exact unbinding (.fireStashed pinsOwned ofHeap)
  | reach i obj answer =>
    exact unbinding (unbinds_modifyCollector i fun c => overrule_keeps c obj answer)
  | initialized x => exact unbinding (.quiet rfl rfl rfl rfl rfl)
  | tornDown x => exact unbinding (.recordTornDown x)
  | nextRuntime => exact unbinding (.quiet rfl rfl rfl rfl rfl)
  | nextHandle => exact unbinding (.quiet rfl rfl rfl rfl rfl)
  | newRef =>
    have fresh : Unbinds owner s s.freshHandle.1 := .quiet rfl rfl rfl rfl rfl
    refine ⟨owner, pinsOwned_addRef (pinsOwned.unbinds fresh) fun a same => ?_⟩
    cases same
    nofun
  | newRefTo i obj => exact pinsOwned_addRefTo pinsOwned i obj
  | bind i r obj =>
    exact pinsOwned_withRef pinsOwned fun ref there => pinsOwned_bindRef pinsOwned there ofHeap obj
  | read i r =>
    refine pinsOwned_withRef pinsOwned fun ref there => unbinding ?_
    exact .read pinsOwned (pinsOwned.owns (.ref r) ref there) (ofHeap ref there)
  | object i r =>
    refine pinsOwned_withRef pinsOwned fun ref there => unbinding ?_
    exact .object pinsOwned (pinsOwned.owns (.ref r) ref there) (ofHeap.1 ref there)
      (ofHeap.2 ref there)
  | refresh i r =>
    exact pinsOwned_withRef pinsOwned fun ref there =>
      unbinding (.refresh pinsOwned (ofHeap ref there))
  | refDefine i r label actions =>
    refine pinsOwned_withRef pinsOwned fun ref there => unbinding ?_
    obtain ⟨looks, defines⟩ := ofHeap.2 ref there
    exact .defineOn pinsOwned (pinsOwned.owns (.ref r) ref there) (ofHeap.1 ref there) looks
      (fun _ _ => ⟨leaves, nofun⟩) defines
  | releaseRef i r =>
    change ∃ owner', PinsOwned owner' (Option.getD (((s.collector? i).map (·.heap.pins)).map
      fun roots => s.releaseRef roots r) s)
    cases here : s.collector? i with
    | none => exact ⟨owner, pinsOwned⟩
    | some c =>
      exact unbinding (.releaseRef pinsOwned fun ref there => (ofHeap ref there).isPinSetOf here)
  | inspect r => exact pinsOwned_withRef pinsOwned fun ref there => ⟨owner, pinsOwned⟩
  | dropRef r => exact unbinding (.dropRef pinsOwned r)
  | newMap =>
    refine unbinding (.still rfl (fun _ => rfl) rfl fun p a b there _ => ?_)
    cases p with
    | ref r => exact there
    | entry x key => exact (s.entry?_addMap x key).symm.trans there
    | hand => exact there
  | mapInsert i m key obj =>
    have inserted := pinsOwned_mapInsert pinsOwned ofHeap obj
    unfold perform
    dsimp only
    split <;> exact inserted
  | mapGet i m key => exact unbinding (.mapGet pinsOwned ofHeap.1 ofHeap.2)
  | mapRemove i m key => exact unbinding (.mapRemove pinsOwned ofHeap)
  | mapUpdate i m => exact unbinding (.mapUpdate pinsOwned ofHeap)
  | dropMap m => exact unbinding (.dropMap pinsOwned m)
  | newPinSet => exact ⟨owner, pinsOwned_newPinSet pinsOwned⟩
  | pin pins handle => cases leaves
  | unpin pins handle => cases leaves
  | clearPins pins => cases leaves
  | _ => exact ⟨owner, pinsOwned⟩

theorem pinsOwned_run (ownership : Ownership ⟨s, none, [], []⟩) {ops : List Op}
    (ofHeap : s.KeepsToOwnHeaps ops) :
    ∃ owner', PinsOwned owner' (s.after ops) := by
  induction ops generalizing s owner with
  | nil => exact ⟨owner, pinsOwned⟩
  | cons op rest ih =>
    obtain ⟨leaves, at_heap, extensions⟩ := ofHeap
    obtain ⟨owner', pinsOwned'⟩ := pinsOwned_perform pinsOwned ownership.heaps leaves at_heap
    exact ih pinsOwned' (ownership_perform ownership op) extensions

end Operations

theorem pinsOwned_empty (owner : Nat → HandleId × Nat) : PinsOwned owner {} := by
  have no_pin (P : Nat) (h : HandleId) : ¬ h ∈ Session.pinned {} P := by
    have none_pinned : Session.pinned {} P = ∅ := by simp [Session.pinned]
    rw [none_pinned]
    exact Roster.not_mem_empty h
  refine ⟨fun P h there => absurd there (no_pin P h), fun P h there => absurd there (no_pin P h),
    fun p a there => ?_, fun j d f there _ => ?_⟩
  · cases p <;> simp [held, ref?, entry?, map?] at there
  · simp [collector?] at there

/-- A bind through a heap that is not that of the binding in force leaves the pin of this binding in
its pin set, where no binding stands for it any more. -/
theorem pin_left_of_bind (here : s.collector? i = some c) {ref : WeakReference} {b : Binding}
    (binding : ref.binding = some b) (inside : b.cell < s.cells.size)
    (pinned : ref.id ∈ s.pinned b.pins) (elsewhere : b.pins ≠ c.heap.pins) {focus : Focus}
    (bound : (s.bind focus i ref target).2.2 = .ok a) :
    ref.id ∈ (s.bind focus i ref target).1.pinned b.pins ∧
      ((s.bind focus i ref target).1.cell b.cell).isBound = false := by
  have mine : ref.cell? = some b.cell := congrArg (Option.map Binding.cell) binding
  have all_inside : ∀ b', ref.binding = some b' → b'.cell < s.cells.size := by
    intro b' same
    rw [binding] at same
    cases same
    exact inside
  rcases s.bind_cases here focus ref all_inside target with
    ⟨e, refused⟩ | ⟨c', ran, a', t, received, arrived, done⟩
  · rw [refused] at bound
    cases bound
  · have kept : ref.id ∈ (s.disarm c.heap.pins ref).pinned b.pins :=
      (s.mem_pinned_disarm _ _ _ _).mpr ⟨pinned, fun ⟨_, same, _⟩ => elsewhere same⟩
    have kept' : ref.id ∈ ((s.disarm c.heap.pins ref).arrive i c' ref.id target ran a').pinned
        b.pins := by
      cases ran with
      | true => exact kept
      | false => exact (mem_pinned_pin _ _ _ _ _).mpr (Or.inr kept)
    have left : (((s.disarm c.heap.pins ref).arrive i c' ref.id target ran a').cell
        b.cell).isBound = false := by
      rw [cell_arrive, s.size_cells_disarm, if_neg (Nat.ne_of_lt inside), cell_disarm, if_pos mine]
      rfl
    rw [done]
    rcases arrived with arrived | counted
    · rw [arrived]
      exact ⟨kept', left⟩
    · rw [counted]
      exact ⟨kept', left⟩

/-- The pin stays when the reference goes: heap 0 pins a handle that nobody has. -/
example : ∃ s, s = Session.after {} [.newHeap {}, .newHeap {}, .alloc 0 .plain, .alloc 1 .plain,
      .newRefTo 0 ⟨0, 0⟩, .bind 1 0 ⟨0, 0⟩, .dropRef 0] ∧
    s.pinsOf 0 = some 0 ∧ ⟨1⟩ ∈ s.pinned 0 ∧ s.refs = #[none] ∧ s.maps = #[] :=
  ⟨_, rfl, by decide⟩

end Session

/-- As long as bound references are used through the heap of their binding, a heap pins a handle
only for a reference that is bound against this very heap. -/
theorem pin_is_of_binding_here {ops : List Op} {s : Session} (run : s = Session.after {} ops)
    (ofHeap : Session.KeepsToOwnHeaps {} ops) {i : Nat} {c : Collector}
    (here : s.collector? i = some c)
    {h : HandleId} (pinned : h ∈ s.pinned c.heap.pins) :
    ∃ p a b, s.held p = some a ∧ a.id = h ∧ s.isBound a = true ∧ a.binding = some b ∧
      ∀ j d, s.collector? j = some d → (d.heap.pins = b.pins ↔ j = i) := by
  obtain ⟨owner, pinsOwned⟩ := Session.pinsOwned_run (Session.pinsOwned_empty fun _ => (⟨0⟩, 0))
    ownership_empty ofHeap
  have ownership := Session.ownership_after ops
  have apart := PinsApart.empty.run ownership_empty ops
  rw [← run] at pinsOwned ownership apart
  obtain ⟨cell, own, bound⟩ := pinsOwned.pins _ h pinned
  obtain ⟨t, state⟩ := (Cell.isBound_iff _).mp bound
  obtain ⟨p, a, there, mine⟩ := ownership.holder cell t state
  rw [Moment.held_atRest] at there
  obtain ⟨b, binding, same_cell⟩ := Option.map_eq_some_iff.mp mine
  have owned := (pinsOwned.owns p a there b binding).2
  rw [same_cell, own] at owned
  obtain ⟨named, at_pins⟩ := Prod.mk.inj owned
  refine ⟨p, a, b, there, named.symm, (s.isBound_iff a).mpr ⟨cell, mine, bound⟩, binding, ?_⟩
  intro j d here'
  rw [← at_pins]
  constructor
  · exact apart.apart j i d c here' here
  · intro same
    rw [same, here] at here'
    cases here'
    rfl

/-- A reference moves to another heap, released in between by a finalizer of the first. -/
def removal : List Op :=
  [.newHeap {}, .newHeap {}, .alloc 0 .plain, .alloc 1 .plain, .newRefTo 0 ⟨0, 0⟩,
    .alloc 0 .emittable, .define 0 ⟨1, 0⟩ "move" [.release 0], .release 0 ⟨1, 0⟩, .bind 1 0 ⟨0, 0⟩]

theorem keepsToOwnHeaps_removal : Session.KeepsToOwnHeaps {} removal := by
  refine ⟨rfl, trivial, rfl, trivial, rfl, trivial, rfl, trivial, rfl, trivial, rfl, trivial,
    rfl, ?_, rfl, ?_, rfl, ?_, trivial⟩
  · intro c here ran
    exact absurd (congrArg Array.size ran) (by decide)
  · intro c here
    cases here
    refine ⟨⟨fun _ a there b k binding bound at_k => ?_, trivial⟩, trivial⟩
    cases there
    cases binding
    rfl
  · intro a there b k binding bound at_k
    cases there
    cases binding

theorem pin_after_removal : Session.KeepsToOwnHeaps {} removal ∧
    ∃ c, (Session.after {} removal).collector? 1 = some c ∧
    ⟨1⟩ ∈ (Session.after {} removal).pinned c.heap.pins ∧
    ∃ p a b, (Session.after {} removal).held p = some a ∧ a.id = ⟨1⟩ ∧
      (Session.after {} removal).isBound a = true ∧ a.binding = some b ∧
      ∀ j d, (Session.after {} removal).collector? j = some d → (d.heap.pins = b.pins ↔ j = 1) := by
  obtain ⟨c, here, at_pins⟩ : ∃ c, (Session.after {} removal).collector? 1 = some c ∧
      c.heap.pins = 1 := ⟨_, rfl, rfl⟩
  have pinned : ⟨1⟩ ∈ (Session.after {} removal).pinned c.heap.pins := by
    rw [at_pins]
    decide
  exact ⟨keepsToOwnHeaps_removal, c, here, pinned,
    pin_is_of_binding_here rfl keepsToOwnHeaps_removal here pinned⟩

end WeakRefs
