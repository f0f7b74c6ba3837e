import WeakRefs.Proofs.PinPermissions
import WeakRefs.Proofs.HeapOfBinding
import WeakRefs.Proofs.WeakMap

/-!
# Operations that pin where they may

An operation keeps a session guarded if it initializes no runtime that is gone, and pins no handle
where it may not: by itself, by a finalizer that it defines, or by a bind.
-/

namespace WeakRefs

namespace Session

section Insertion
variable {s : Session} {i x : Nat} {c : Collector} {map : WeakValueMap} {key : String}
variable {v : ObjectRef} {r : WeakReference}

theorem kind?_of_refused (here : s.collector? i = some c) (plain : c.IsPlain) {focus : Focus}
    {f : Finalizer} {e : RefError} (refused : (s.define focus i v f).2 = .error e) :
    c.heap.kind? v = some .immediate := by
  rw [define_pass here plain.nextDirective] at refused
  split at refused
  · cases refused
  · cases refused
  · rename_i found
    unfold Heap.define at found
    split at found
    · cases found
    · rename_i o live
      split at found
      · rename_i immediate
        unfold Heap.kind?
        rw [live]
        exact congrArg some immediate
      · cases found
      · cases found

/-- A value that takes the finalizer of a binding takes the report of the entry. -/
theorem mapInsert_ok (boundKept : BoundKept i ⟨s, none, [], []⟩)
    (issued : Issued ⟨s, none, [], []⟩) (here : s.collector? i = some c)
    (present : s.map? x = some map) (made : ((s.pruneMap x).bindNew (.map x) i v).2 = .ok r) :
    (s.mapInsert i x key v).2 = .ok () := by
  unfold mapInsert
  rw [here, present]
  dsimp only
  rw [made]
  dsimp only
  have issued := issued.run boundKept.ownership (quiet_pruneMap s x)
  have boundKept := boundKept.pruneMap x
  have here := (s.collector?_pruneMap x i).trans here
  generalize s.pruneMap x = t at made boundKept issued here
  obtain ⟨b, d, binding, ofHeap, at_i, runtime, same_live, cell⟩ :=
    bindNew_cases here (boundKept.plain c here) (.map x) made
  obtain ⟨boundKept, _⟩ := boundKept_bindNew boundKept issued (.map x) made
  clear made
  generalize (t.bindNew (.map x) i v).1 = u at boundKept at_i cell
  have plain := boundKept.plain d at_i
  cases answer : (u.define (.map x) i v (.report x key r.id)).2 with
  | ok a => rfl
  | error e =>
    have kind := kind?_of_refused at_i plain answer
    have live : d.heap.isLive v = true := by
      obtain ⟨o, found, _⟩ := Option.map_eq_some_iff.mp kind
      rw [Heap.isLive, found]
      rfl
    rw [← same_live, live, if_pos rfl] at cell
    rcases boundKept.keptOnce d .hand r b v at_i rfl binding (ofHeap.trans runtime.symm) cell with
      inHeap | flies
    · obtain ⟨d', at_i', keptOnce⟩ := inHeap.keptBy
      rw [at_i] at at_i'
      cases at_i'
      have same := keptOnce.live.symm.trans kind
      cases affiliation : b.affiliation with
      | direct =>
        rw [affiliation] at same
        cases same
      | indirect =>
        rw [affiliation] at same
        cases same
    · cases flies

end Insertion

end Session

/-- What an operation may not do to keep a session guarded. -/
structure Op.Respects (gone : InstanceId → Prop) (may : HandleId → Nat → Prop) (s : Session)
    (op : Op) : Prop where
  initialized : ∀ x, op = .initialized x → ¬ gone x
  pin : ∀ q h, op = .pin q h → may h q
  defines : ∀ i f c h, op.heap? = some i → op.defines? = some f → s.collector? i = some c →
    f.Pins h → may h c.heap.pins
  binds : ∀ i c h v, s.boundBy? op = some (h, v) → op.target? = some (i, v) →
    s.collector? i = some c → may h c.heap.pins

namespace Session
variable {gone : InstanceId → Prop} {may : HandleId → Nat → Prop} {s : Session} {op : Op}

theorem Guarded.withRef (guarded : Guarded gone may s) {r : Nat}
    {f : WeakReference → Session × Reply}
    (works : ∀ ref, s.ref? r = some ref → Guarded gone may (f ref).1) :
    Guarded gone may (s.withRef r f).1 := by
  unfold Session.withRef
  split
  · rename_i ref there
    exact works ref there
  · exact guarded

/-- An operation that pins nothing where it may not keeps a session guarded. -/
theorem Guarded.perform (guarded : Guarded gone may s) (scriptFree : ScriptFree ⟨s, none, [], []⟩)
    (old : ∀ x, gone x → x.raw ≤ s.runtimes) (respects : op.Respects gone may s) :
    Guarded gone may (s.perform op).1 := by
  have ownership := scriptFree.ownership
  cases op with
  | newHeap config => exact guarded.newHeap config old
  | shutDown i =>
    change Guarded gone may (s.shutDown i)
    unfold shutDown
    split
    · rename_i c here
      exact (guarded.shutDownIn here (List.mergeSort_perm _ _)).of_gone fun x => Or.inl
    · exact guarded
  | alloc i kind =>
    have made := guarded.alloc ownership.heaps i kind
    unfold perform
    dsimp only
    split <;> exact made
  | retain i obj => exact guarded.upkeep i fun _ => .retain obj
  | release i obj =>
    change Guarded gone may (s.releaseRoot i obj)
    unfold releaseRoot
    split
    · exact guarded
    · rename_i c here
      exact guarded.settle .idle here (.release obj)
  | collect i => exact guarded.collect .idle i
  | define i obj label actions =>
    exact guarded.define .idle obj fun c h here => respects.defines i _ c h rfl rfl here
  | script i directives => exact guarded.modifyCollector i fun _ => ⟨rfl, rfl⟩
  | fire i position => exact guarded.fireStashed i position
  | reach i obj answer => exact guarded.modifyCollector i fun c => overrule_keeps c obj answer
  | initialized x =>
    refine ⟨fun y named => decide_eq_false fun there => ?_, guarded.pins, guarded.keeps⟩
    rcases Roster.mem_insert.mp there with new | before
    · exact respects.initialized x rfl (new ▸ named)
    · exact absurd before (of_decide_eq_false (guarded.dead y named))
  | tornDown x => exact (guarded.recordTornDown x).of_gone fun y => Or.inl
  | nextRuntime => exact guarded.quiet rfl rfl rfl
  | nextHandle => exact guarded.quiet rfl rfl rfl
  | newRef => exact guarded.quiet rfl rfl rfl
  | newRefTo i obj =>
    refine guarded.addRefTo obj fun c r here made => ?_
    refine respects.binds i c s.freshHandle.2 obj ?_ rfl here
    have answer : (s.perform (.newRefTo i obj)).2 = .identity r.id.raw := by
      change (s.addRefTo i obj).2 = _
      unfold Session.addRefTo
      dsimp only
      rw [made]
    unfold boundBy?
    rw [answer]
  | bind i r obj =>
    refine guarded.withRef fun ref there => ?_
    refine Guarded.quiet (s := (s.bind (.reference r) i ref obj).1) ?_ rfl rfl rfl
    have inside : ∀ b, ref.binding = some b → b.cell < s.cells.size := fun b binding =>
      ownership.inside (.ref r) ref b.cell there (congrArg (Option.map Binding.cell) binding)
    refine guarded.bind (.reference r) inside obj fun c a here done => ?_
    refine respects.binds i c ref.id obj ?_ rfl here
    have answer : (s.perform (.bind i r obj)).2 = .affiliation a := by
      change (s.withRef r _).2 = _
      rw [withRef_of_ref? there]
      exact congrArg attachedReply done
    unfold boundBy?
    rw [answer]
    exact congrArg (Option.map fun ref => (ref.id, obj)) there
  | read i r => exact guarded.withRef fun ref _ => guarded.read i ref
  | object i r => exact guarded.withRef fun ref _ => guarded.object (.reference r) i ref
  | refresh i r => exact guarded.withRef fun ref _ => guarded.refresh (.reference r) i ref
  | refDefine i r label actions =>
    refine guarded.withRef fun ref _ => guarded.defineOn (.reference r) ref fun P h at_i => ?_
    obtain ⟨c, here, pins⟩ := Option.map_eq_some_iff.mp at_i
    rw [← pins]
    exact respects.defines i _ c h rfl rfl here
  | releaseRef i r =>
    change Guarded gone may (((s.pinsOf i).map fun roots => s.releaseRef roots r).getD s)
    cases s.pinsOf i with
    | none => exact guarded
    | some roots => exact guarded.releaseRef roots r
  | inspect r => exact guarded.withRef fun ref _ => guarded
  | dropRef r => exact guarded.dropRef r
  | newMap => exact guarded.quiet rfl rfl rfl
  | mapInsert i x key obj =>
    rw [perform_mapInsert]
    refine guarded.mapInsert x key obj fun c map r here present made => ?_
    refine respects.binds i c s.freshHandle.2 obj ?_ rfl here
    have answer : (s.perform (.mapInsert i x key obj)).2 = .done := by
      rw [perform_mapInsert, mapInsert_ok (scriptFree.boundKept i) scriptFree.issued here
        present made]
    unfold boundBy?
    rw [answer]
  | mapGet i x key => exact guarded.mapGet i x key
  | mapRemove i x key => exact guarded.mapRemove i x key
  | mapUpdate i x => exact guarded.mapUpdate i x
  | dropMap x => exact guarded.dropMap x
  | newPinSet => exact guarded.newPinSet
  | pin q h => exact guarded.pin (respects.pin q h rfl)
  | unpin q h => exact guarded.unpin q h
  | clearPins q => exact guarded.clearPins q
  | _ => exact guarded

theorem Guarded.after {ops : List Op} (guarded : Guarded gone may s)
    (scriptFree : ScriptFree ⟨s, none, [], []⟩) (plain : ∀ op ∈ ops, ∀ k, op.scripts k = false)
    (old : ∀ x, gone x → x.raw ≤ s.runtimes)
    (respects : ∀ before op, before ++ [op] <+: ops → op.Respects gone may (s.after before)) :
    Guarded gone may (s.after ops) := by
  induction ops generalizing s with
  | nil => exact guarded
  | cons op rest ih =>
    have now := plain op List.mem_cons_self
    have counted : s.runtimes ≤ (s.perform op).1.runtimes := by
      refine (perform_moves_of_ownership scriptFree.ownership op).preserves
        (I := fun m => s.runtimes ≤ m.session.runtimes) ?_ (Nat.le_refl _)
      exact fun _ move le => Nat.le_trans le move.runtimes_le
    have first := respects [] op (List.prefix_append [op] rest)
    exact ih (guarded.perform scriptFree old first) (scriptFree.perform now)
      (fun op later => plain op (List.mem_cons_of_mem _ later))
      (fun x named => Nat.le_trans (old x named) counted)
      fun before op' part => respects (op :: before) op' (List.cons_prefix_cons.mpr ⟨rfl, part⟩)

end Session

namespace Op

/-- Whether an operation pins a handle, or keeps a finalizer that will, other than in the pin set of
heap `i`. -/
def pinsElsewhere (i pins : Nat) (h : HandleId) : Op → Bool
  | pin q g => g = h && q ≠ pins
  | define j _ _ actions | refDefine j _ _ actions => j ≠ i && actions.contains (.pin h)
  | _ => false

/-- An operation that binds a handle through one heap only, and pins it nowhere else, keeps its pins
in the pin set of this heap. -/
theorem respects_of_through {s : Session} {op : Op} {i P : Nat} {x : InstanceId} {h : HandleId}
    (knows : s.Knows i x P) (through : ∀ v, s.binds? op h = some v → op.bindsThrough i = true)
    (away : op.pinsElsewhere i P h = false) :
    op.Respects (fun _ => False) (fun g q => g = h → q = P) s where
  initialized _ _ := id
  pin q g same named := by
    subst same
    subst named
    simpa [pinsElsewhere] using away
  defines j f c g at_j defined here pins named := by
    subst named
    have at_i : j = i := by
      cases op with
      | define _ _ label actions | refDefine _ _ label actions =>
        cases at_j
        cases defined
        have listed : .pin g ∈ actions := pins
        simpa [pinsElsewhere, listed] using away
      | _ => cases defined
    exact (knows c (at_i ▸ here)).2
  binds j c g v bound target here named := by
    subst named
    have ofHeap := through v (Session.binds?_of_boundBy? bound)
    unfold bindsThrough at ofHeap
    rw [target] at ofHeap
    have at_i : j = i := of_decide_eq_true ofHeap
    exact (knows c (at_i ▸ here)).2

end Op

namespace Session

/-- The pins of a handle that is bound through one heap only, and pinned nowhere else, are in the
pin set of this heap. -/
theorem Guarded.through {s : Session} {i P : Nat} {x : InstanceId} {h : HandleId} {ops : List Op}
    (guarded : Guarded (fun _ => False) (fun g q => g = h → q = P) s)
    (scriptFree : ScriptFree ⟨s, none, [], []⟩) (plain : ∀ op ∈ ops, ∀ k, op.scripts k = false)
    (knows : ∀ before, before <+: ops → (s.after before).Knows i x P)
    (through : s.BindsThrough i h ops) (away : ∀ op ∈ ops, op.pinsElsewhere i P h = false) :
    Guarded (fun _ => False) (fun g q => g = h → q = P) (s.after ops) := by
  refine guarded.after scriptFree plain (fun _ => False.elim) fun before op part => ?_
  have listed : op ∈ ops := part.subset (List.mem_append_right _ List.mem_cons_self)
  exact Op.respects_of_through (knows before ((List.prefix_append before [op]).trans part))
    (through.at_prefix part) (away op listed)

end Session

end WeakRefs
