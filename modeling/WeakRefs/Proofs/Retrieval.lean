import WeakRefs.Proofs.GoneHeap
import WeakRefs.Proofs.MapOperations
import WeakRefs.Proofs.Resurrection
import WeakRefs.Proofs.Unbinding

/-!
# Ways to retrieve a value

A read asks whether the target is reachable; `object` and a get run a collection first. They answer
alike, as the finalizer of the binding runs only where the target has no root.
-/

namespace WeakRefs

theorem Focus.covers_ref {focus : Focus} {r : Nat} (covers : focus.Covers (.ref r)) :
    focus = .reference r := by
  cases covers
  rfl

theorem Focus.covers_entry {focus : Focus} {x : Nat} {key : String}
    (covers : focus.Covers (.entry x key)) : focus = .map x := by
  cases covers
  rfl

namespace Session
variable {s s' s'' : Session} {focus : Focus} {d i : Nat}

/-- Whoever has the cell is in use. -/
def Reserved (s : Session) (focus : Focus) (d : Nat) : Prop :=
  ∀ p a, s.held p = some a → a.cell? = some d → focus.Covers p

/-- The cell is as it was, and nobody has come to have it. -/
structure LeavesCell (d : Nat) (s s' : Session) : Prop where
  cell : s'.cell d = s.cell d
  held : ∀ p a, s'.held p = some a → a.cell? = some d → s.held p = some a

namespace LeavesCell

theorem refl (d : Nat) (s : Session) : LeavesCell d s s := ⟨rfl, fun _ _ there _ => there⟩

theorem trans (first : LeavesCell d s s') (second : LeavesCell d s' s'') : LeavesCell d s s'' where
  cell := second.cell.trans first.cell
  held p a there mine := first.held p a (second.held p a there mine) mine

theorem of_same (cells : s'.cells = s.cells) (refs : s'.refs = s.refs) (maps : s'.maps = s.maps) :
    LeavesCell d s s' where
  cell := cell_congr cells d
  held p _ there _ := (held_congr refs maps p).symm.trans there

theorem reserved (leaves : LeavesCell d s s') (reserved : s.Reserved focus d) :
    s'.Reserved focus d :=
  fun p a there mine => reserved p a (leaves.held p a there mine) mine

section Actions
variable (reserved : s.Reserved focus d) (roots : Nat)
include reserved

theorem releaseRef {r : Nat} (other : focus ≠ .reference r) :
    LeavesCell d s (s.releaseRef roots r) := by
  unfold Session.releaseRef
  split
  · rename_i ref here
    have disarmed := s.sameButBindings_disarm roots ref
    refine ⟨?_, fun p a there mine => ?_⟩
    · refine (s.cell_disarm roots ref d).trans (if_neg fun mine => ?_)
      exact other (Focus.covers_ref (reserved (.ref r) ref here mine))
    · rcases held_setRef there with emptied | before
      · cases emptied
        cases mine
      · exact (held_congr disarmed.refs disarmed.maps p).symm.trans before
  · exact .refl d s

theorem dropRef {r : Nat} (other : focus ≠ .reference r) : LeavesCell d s (s.dropRef r) := by
  unfold Session.dropRef
  split
  · rename_i ref here
    have discarded := s.sameButBindings_discard ref
    refine ⟨?_, fun p a there mine => ?_⟩
    · refine (s.cell_discard ref d).trans (if_neg fun mine => ?_)
      exact other (Focus.covers_ref (reserved (.ref r) ref here mine))
    · rcases held_setRef there with vacated | before
      · cases vacated
      · exact (held_congr discarded.refs discarded.maps p).symm.trans before
  · exact .refl d s

theorem dropMap {x : Nat} (other : focus ≠ .map x) : LeavesCell d s (s.dropMap x) := by
  unfold Session.dropMap
  split
  · rename_i map here
    have discarded := s.sameButBindings_discardAll map.references
    refine ⟨?_, fun p a there mine => ?_⟩
    · refine (s.cell_discardAll map.references d).trans (if_neg ?_)
      rintro ⟨a, listed, mine⟩
      obtain ⟨key, stands⟩ := (map.mem_references a).mp listed
      have there : s.held (.entry x key) = some a := s.entry?_eq_some_iff.mpr ⟨map, here, stands⟩
      exact other (Focus.covers_entry (reserved _ a there mine))
    · have inside : x < (s.discardAll map.references).maps.size :=
        discarded.maps ▸ s.lt_size_of_map? here
      rcases held_setMap inside there with ⟨_, _, _, gone, _⟩ | before
      · cases gone
      · exact (held_congr discarded.refs discarded.maps p).symm.trans before
  · exact .refl d s

theorem act (a : Action) : LeavesCell d s (s.act focus roots a).1 := by
  cases a with
  | pin handle => exact .of_same rfl rfl rfl
  | unpin handle => exact .of_same rfl rfl rfl
  | isAlive x => exact .refl d s
  | pinCount pins => exact .refl d s
  | isBound r => exact onRef_induction (.refl d s) fun _ _ => .refl d s
  | release r => exact onRef_induction (.refl d s) fun other _ => releaseRef reserved roots other
  | dropRef r => exact onRef_induction (.refl d s) fun other _ => dropRef reserved other
  | mapSize x => exact onMap_induction (.refl d s) fun _ _ => .refl d s
  | dropMap x => exact onMap_induction (.refl d s) fun other _ => dropMap reserved other

theorem actAll (actions : List Action) : LeavesCell d s (s.actAll focus roots actions).1 := by
  induction actions generalizing s with
  | nil => exact .refl d s
  | cons a rest ih =>
    have first := act reserved roots a
    exact first.trans (ih (first.reserved reserved))

/-- Only its own finalizer touches the cell. -/
theorem deliver {f : Finalizer} (other : f.closesOver d = false) :
    LeavesCell d s (s.deliver focus roots f) := by
  have logged : LeavesCell d s (s.logRun f) := .of_same rfl rfl rfl
  refine logged.trans ?_
  cases f with
  | endBinding c handle =>
    have same := (s.logRun (.endBinding c handle)).sameButBindings_endBinding roots c handle
    refine ⟨?_, fun p _ there _ => (held_congr same.refs same.maps p).symm.trans there⟩
    refine ((s.logRun (.endBinding c handle)).cell_endBinding roots c handle d).trans (if_neg ?_)
    exact fun own => of_decide_eq_false other own.symm
  | report x key handle =>
    exact ⟨rfl, fun p _ there _ => ((s.logRun _).held_report x key handle p).symm.trans there⟩
  | user label actions =>
    exact (actAll (logged.reserved reserved) roots actions).trans (.of_same rfl rfl rfl)

theorem deliverAll {due : List Finalizer} (others : ∀ f ∈ due, f.closesOver d = false) :
    LeavesCell d s (s.deliverAll focus roots due) := by
  induction due generalizing s with
  | nil => exact .refl d s
  | cons f rest ih =>
    have first := deliver reserved roots (others f List.mem_cons_self)
    exact first.trans (ih (first.reserved reserved)
      fun g later => others g (List.mem_cons_of_mem _ later))

end Actions

/-- A collection leaves the cell alone, unless the target is among those that it reclaims. -/
theorem collect {c : Collector} (here : s.collector? i = some c) (reserved : s.Reserved focus d)
    (others : ∀ f ∈ c.heap.sweep.2.flatMap Reclaimed.due, f.closesOver d = false) :
    LeavesCell d s (s.collect focus i).1 := by
  have heaped (t : Session) (f : Heap Finalizer → Heap Finalizer) :
      LeavesCell d t (t.modifyHeap i f) := .of_same rfl rfl rfl
  have told (t : Session) (e : Event) : LeavesCell d t (t.emit e) := .of_same rfl rfl rfl
  have reclaimed : LeavesCell d s ((s.modifyHeap i fun _ => c.heap.sweep.1).emitAll
      (reclaimedEvents c.heap.sweep.2)) := by
    rw [emitAll_eq]
    exact .of_same rfl rfl rfl
  have delivered := deliverAll (reclaimed.reserved reserved) c.heap.sweep.1.pins others
  unfold Session.collect
  rw [here]
  exact (reclaimed.trans delivered).trans ((heaped _ _).trans ((heaped _ _).trans (told _ _)))

end LeavesCell

section Answers
variable {p : Place} {ref : WeakReference} {c : Collector}
variable (boundKept : BoundKept i ⟨s, none, [], []⟩) (ofHeap : AllThrough i ⟨s, none, [], []⟩)
variable (here : s.collector? i = some c) (held : s.held p = some ref)
include boundKept ofHeap here held

theorem target?_collect (covers : focus.Covers p) {x : ObjectRef} (target : s.target? ref = some x)
    (rooted : c.heap.isReachable x = true) : (s.collect focus i).1.target? ref = some x := by
  obtain ⟨b, binding, bound⟩ := binding_of_target? target
  have mine := WeakReference.cell?_of_binding binding
  have ownership := boundKept.ownership
  have mine_held := (Moment.held_atRest s p).trans held
  have reserved : s.Reserved focus b.cell := by
    intro q a there same
    have at_p := ownership.own q p a ref b.cell ((Moment.held_atRest s q).trans there) mine_held
      same mine
    exact at_p ▸ covers
  have keptOnce := keptInHeap_of_bound boundKept here held binding
    ((ofHeap p ref b mine_held binding).2 c here)
    bound
  have others : ∀ f ∈ c.heap.sweep.2.flatMap Reclaimed.due, f.closesOver b.cell = false := by
    intro f due
    obtain ⟨q, gone, kept⟩ := ((Heap.reclaims_sweep (ownership.heaps i c here)).mem_due f).mp due
    cases f with
    | endBinding cell handle =>
      refine decide_eq_false fun same => ?_
      subst same
      have awaited : Moment.Awaits ⟨s, none, [], []⟩ (.endBinding b.cell handle) :=
        Or.inl ⟨i, c, here, Or.inr ⟨q, kept⟩⟩
      rw [← (ownership.waits b.cell handle awaited).2 p ref mine_held mine] at kept
      rw [keptOnce.only q kept] at gone
      rw [← Heap.isLive_sweep, Heap.isLive, gone] at rooted
      cases rooted
    | report x key handle => rfl
    | user label actions => rfl
  exact (target?_eq_some_iff _ _).mpr
    ⟨b.cell, mine, (LeavesCell.collect here reserved others).cell.trans bound⟩

/-- A read answers the same before and after a binding was brought up to date. -/
theorem read_refresh (covers : focus.Covers p) :
    ((s.refresh focus i ref).read i ref).2 = (s.read i ref).2 := by
  cases indirect : ref.isIndirect with
  | false =>
    unfold refresh
    rw [indirect]
    rfl
  | true =>
    have same : s.refresh focus i ref = (s.collect focus i).1 := by
      unfold refresh
      rw [indirect]
      rfl
    have plain := boundKept.plain c here
    have plain' : Collector.IsPlain { c with heap := (c.heap.sweep.1.countRun
        (c.heap.sweep.2.flatMap Reclaimed.due).length).countCollection } :=
      ⟨plain.script, plain.stash, plain.reach⟩
    have swept (x : ObjectRef) := (plain'.isReachable x).trans (c.heap.isReachable_sweep x)
    rw [same, answer_read (collector?_collect here focus), answer_read here]
    apply Option.ext
    intro x
    rw [Option.filter_eq_some_iff, Option.filter_eq_some_iff, swept, plain.isReachable]
    refine and_congr_left fun rooted => ⟨fun after => ?_, fun before => ?_⟩
    · exact target?_of_refresh boundKept.ownership
        (show (s.refresh focus i ref).target? ref = some x from
        same ▸ after)
    · exact target?_collect boundKept ofHeap here held covers before rooted

theorem object_eq_read (covers : focus.Covers p)
    (alive : ∀ y, ref.runtime? = some y → s.isAlive y = true) :
    (s.object focus i ref).2 = (s.read i ref).2 := by
  unfold object
  cases runtime : ref.runtime? with
  | none =>
    have empty : ref.binding = none := Option.map_eq_none_iff.mp runtime
    unfold read
    rw [here, empty]
  | some y =>
    dsimp only
    rw [if_pos (alive y runtime)]
    exact read_refresh boundKept ofHeap here held covers

end Answers

theorem mapGet_eq_mapRemove {x : Nat} {key : String} {c : Collector}
    (boundKept : BoundKept i ⟨s, none, [], []⟩) (ofHeap : AllThrough i ⟨s, none, [], []⟩)
    (here : s.collector? i = some c)
    (alive : ∀ ref, s.entry? x key = some ref → ∀ y, ref.runtime? = some y → s.isAlive y = true) :
    (s.mapGet i x key).2 = (s.mapRemove i x key).2 := by
  have ofHeap : AllThrough i ⟨s.pruneMap x, none, [], []⟩ := by
    refine (quiet_pruneMap s x).keeps boundKept.ownership (fun quiet ownership move ofHeap => ?_)
      ofHeap
    refine ofHeap.move ownership move fun j h y same => ?_
    rw [same] at quiet
    cases quiet
  have boundKept := boundKept.pruneMap x
  have here' := (s.collector?_pruneMap x i).trans here
  unfold mapGet mapRemove
  rw [here]
  dsimp only
  cases there : Session.entry? (s.pruneMap x) x key with
  | none => rfl
  | some ref =>
    refine object_eq_read boundKept ofHeap here' (p := .entry x key) there
      (.entry x key) fun y runtime => ?_
    unfold isAlive
    rw [s.alive_pruneMap x]
    exact alive ref (entry?_of_pruneMap there).1 y runtime

end Session

/-- Where the runtime of the binding is alive, `object` answers what a read answers, and a get
answers what a removal answers. -/
theorem retrievals_agree {ops : List Op} {i : Nat} (plain : ∀ op ∈ ops, op.scripts i = false)
    (only : ∀ op ∈ ops, op.bindsThrough i = true) {s : Session} (run : s = Session.after {} ops)
    {c : Collector} (here : s.collector? i = some c) :
    (∀ n ref, s.ref? n = some ref → (∀ y, ref.runtime? = some y → s.isAlive y = true) →
      ∃ answer, (s.perform (.object i n)).2 = .object answer ∧
        (s.perform (.read i n)).2 = .object answer ∧
        ∀ t, answer = some t ↔ s.target? ref = some t ∧ c.heap.isReachable t = true) ∧
    ∀ x key, (∀ ref, s.entry? x key = some ref →
        ∀ y, ref.runtime? = some y → s.isAlive y = true) →
      (s.perform (.mapGet i x key)).2 = (s.perform (.mapRemove i x key)).2 := by
  have boundKept : BoundKept i ⟨s, none, [], []⟩ := run ▸ Session.boundKept_after plain
  have ofHeap : AllThrough i ⟨s, none, [], []⟩ := run ▸ AllThrough.empty.run ownership_empty only
  refine ⟨fun n ref there alive => ⟨(s.read i ref).2, ?_, ?_, fun t => ?_⟩, fun x key alive => ?_⟩
  · have found := Session.object_eq_read boundKept ofHeap here (p := .ref n) there
      (.reference n) alive
    have performed : s.perform (.object i n) = ((s.object (.reference n) i ref).1,
      .object (s.object (.reference n) i ref).2) := Session.withRef_of_ref? there _
    rw [performed, found]
  · have performed : s.perform (.read i n) = ((s.read i ref).1, .object (s.read i ref).2) :=
      Session.withRef_of_ref? there _
    rw [performed]
  · rw [Session.answer_read here, Option.filter_eq_some_iff, (boundKept.plain c here).isReachable]
  · exact congrArg Reply.object (Session.mapGet_eq_mapRemove boundKept ofHeap here alive)

/-- A reference whose target is there, one whose target has no root any more, and an entry for the
latter. -/
theorem retrievals_of_release :
    let ops : List Op := [.newHeap {}, .alloc 0 .plain, .alloc 0 .plain, .newRefTo 0 ⟨0, 0⟩,
      .newRefTo 0 ⟨1, 0⟩, .newMap, .mapInsert 0 0 "key" ⟨1, 0⟩, .release 0 ⟨1, 0⟩]
    let s := Session.after {} ops
    (s.perform (.object 0 0)).2 = .object (some ⟨0, 0⟩) ∧
    (s.perform (.object 0 1)).2 = .object none ∧
    (s.perform (.mapGet 0 0 "key")).2 = (s.perform (.mapRemove 0 0 "key")).2 := by
  intro ops s
  have collected : (s.collector? 0).any fun c =>
      c.heap.isReachable ⟨0, 0⟩ && !c.heap.isReachable ⟨1, 0⟩ := by decide +kernel
  obtain ⟨c, here, both⟩ := (Option.any_eq_true _ _).mp collected
  obtain ⟨rooted, unrooted⟩ := Bool.and_eq_true_iff.mp both
  obtain ⟨references, maps⟩ := retrievals_agree (show ∀ op ∈ ops, op.scripts 0 = false by decide)
    (by decide) (show s = .after {} ops from rfl) here
  have first : s.ref? 0 = some ⟨⟨1⟩, some ⟨0, .indirect, ⟨1⟩, 0⟩⟩ := by decide +kernel
  have second : s.ref? 1 = some ⟨⟨2⟩, some ⟨1, .indirect, ⟨1⟩, 0⟩⟩ := by decide +kernel
  have entry : s.entry? 0 "key" = some ⟨⟨3⟩, some ⟨2, .indirect, ⟨1⟩, 0⟩⟩ := by decide +kernel
  have alive : s.isAlive ⟨1⟩ = true := by decide +kernel
  obtain ⟨a, answers, _, found⟩ := references 0 _ first fun _ same => Option.some.inj same ▸ alive
  obtain ⟨b, answers', _, found'⟩ := references 1 _ second fun _ same =>
    Option.some.inj same ▸ alive
  have target : s.target? ⟨⟨2⟩, some ⟨1, .indirect, ⟨1⟩, 0⟩⟩ = some ⟨1, 0⟩ := by decide +kernel
  have missing : b = none := by
    cases b with
    | none => rfl
    | some t =>
      obtain ⟨bound, reachable⟩ := (found' t).mp rfl
      cases target.symm.trans bound
      rw [reachable] at unrooted
      cases unrooted
  refine ⟨answers.trans ?_, answers'.trans ?_, maps 0 "key" fun ref there y same => ?_⟩
  · rw [(found ⟨0, 0⟩).mpr ⟨by decide +kernel, rooted⟩]
  · rw [missing]
  · cases entry.symm.trans there
    exact Option.some.inj same ▸ alive

end WeakRefs
