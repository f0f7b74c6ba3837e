import WeakRefs.Proofs.Stride

/-!
# Delivery as strides

A delivery makes the strides of its finalizer: it fires a cell, reports an entry, or carries out the
actions of a user, who may touch free references only.
-/

namespace WeakRefs

namespace Session
variable {T : Tag → Prop} (free : T .free) (touch : ∀ r, T (.touch (.ref r)))
variable {s : Session} {i : Nat} {c : Collector} (here : s.collector? i = some c)
variable (hand : Option WeakReference) (running : List Action) (flight : List Finalizer)

include here in
theorem releaseRef_strides (r : Nat) (allowed : T (.touch (.ref r))) :
    Strides T ⟨s, hand, running, flight⟩ ⟨s.releaseRef c.heap.pins r, hand, running, flight⟩ := by
  unfold releaseRef
  split
  · rename_i ref held
    exact .single (.release ⟨s, hand, running, flight⟩ allowed here held)
  · exact .refl

theorem dropRef_strides (r : Nat) (allowed : T (.touch (.ref r))) :
    Strides T ⟨s, hand, running, flight⟩ ⟨s.dropRef r, hand, running, flight⟩ := by
  unfold dropRef
  split
  · rename_i ref held
    have still : (s.discard ref).ref? r = some ref :=
      ((s.sameButBindings_discard ref).ref? r).trans held
    have discarded := Move.discard ⟨s, hand, running, flight⟩ (p := .ref r) held
    have vacated := Move.vacate ⟨s.discard ref, hand, running, flight⟩ still
      (s.isBound_discard ref)
    have left_alone : Quiet ⟨s, hand, running, flight⟩ ⟨s.discard ref, hand, running, flight⟩ :=
      .of_same (s.sameButBindings_discard ref) (s.journal_discard ref)
    exact (Strides.quiet allowed discarded left_alone).trans
      (.quiet allowed vacated (.vacate _ hand running flight r))
  · exact .refl

include free

theorem dropMap_strides (x : Nat) : Strides T ⟨s, hand, running, flight⟩
    ⟨s.dropMap x, hand, running, flight⟩ := by
  unfold dropMap
  split
  · rename_i map held
    have same := s.sameButBindings_discardAll map.references
    exact .quiet free (Move.dropMap ⟨s, hand, running, flight⟩ held)
      (.of_refs same.refs (news_of_journal (s.journal_discardAll _)) same.alive)
  · exact .refl

section Guards
variable {focus : Focus} {m : Moment}

omit free in
theorem onRef_strides {r : Nat} {f : WeakReference → Session × ActionReply}
    (refused : Strides T m ⟨s, hand, running, flight⟩)
    (done : ∀ ref, Strides T m ⟨(f ref).1, hand, running, flight⟩) :
    Strides T m ⟨(s.onRef focus r f).1, hand, running, flight⟩ :=
  onRef_induction (P := fun t => Strides T m ⟨t, hand, running, flight⟩) refused fun _ => done

omit free in
theorem onMap_strides {x : Nat} {f : WeakValueMap → Session × ActionReply}
    (refused : Strides T m ⟨s, hand, running, flight⟩)
    (done : ∀ map, Strides T m ⟨(f map).1, hand, running, flight⟩) :
    Strides T m ⟨(s.onMap focus x f).1, hand, running, flight⟩ :=
  onMap_induction (P := fun t => Strides T m ⟨t, hand, running, flight⟩) refused fun _ => done

end Guards

section Actions
include touch here

theorem act_strides (focus : Focus) (a : Action) : Strides T ⟨s, hand, a :: running, flight⟩
    ⟨(s.act focus c.heap.pins a).1, hand, running, flight⟩ := by
  have skip (s' : Session) : Strides T ⟨s', hand, a :: running, flight⟩
      ⟨s', hand, running, flight⟩ :=
    .quiet free (Move.skip ⟨s', hand, a :: running, flight⟩ rfl) (.of_refs rfl rfl rfl)
  cases a with
  | pin handle =>
    exact (Strides.quiet free (Move.actPin ⟨s, hand, _ :: running, flight⟩ here rfl)
      (.of_refs rfl rfl rfl)).trans (skip _)
  | unpin handle =>
    exact (Strides.quiet free (Move.actUnpin ⟨s, hand, _ :: running, flight⟩ here rfl)
      (.of_refs rfl rfl rfl)).trans (skip _)
  | isAlive x => exact skip s
  | pinCount pins => exact skip s
  | isBound r => exact onRef_strides hand running flight (skip s) fun _ => skip s
  | release r =>
    refine onRef_strides hand running flight (skip s) fun _ => ?_
    exact (releaseRef_strides here hand _ flight r (touch r)).trans (skip _)
  | dropRef r =>
    refine onRef_strides hand running flight (skip s) fun _ => ?_
    exact (dropRef_strides hand _ flight r (touch r)).trans (skip _)
  | mapSize x => exact onMap_strides hand running flight (skip s) fun _ => skip s
  | dropMap x =>
    refine onMap_strides hand running flight (skip s) fun _ => ?_
    exact (dropMap_strides free hand _ flight x).trans (skip _)

theorem actAll_strides (focus : Focus) (actions : List Action) :
    Strides T ⟨s, hand, actions, flight⟩
    ⟨(s.actAll focus c.heap.pins actions).1, hand, [], flight⟩ := by
  induction actions generalizing s with
  | nil => exact .refl
  | cons a rest ih =>
    have first := act_strides free touch here hand rest flight focus a
    have there : (s.act focus c.heap.pins a).1.collector? i = some c :=
      (collector?_congr (s.collectors_act focus _ a) i).trans here
    exact first.trans (ih there)

theorem deliver_strides (focus : Focus) (f : Finalizer) : Strides T ⟨s, hand, [], f :: flight⟩
    ⟨s.deliver focus c.heap.pins f, hand, [], flight⟩ := by
  cases f with
  | endBinding cell handle =>
    exact .single (.fire ⟨s, hand, [], _ :: flight⟩ free here rfl rfl)
  | report x key handle =>
    exact .quiet free (Move.report ⟨s, hand, [], _ :: flight⟩ rfl rfl) (.of_refs rfl rfl rfl)
  | user label actions =>
    have begun := Strides.quiet free
      (Move.begin ⟨s, hand, [], .user label actions :: flight⟩ rfl rfl) (.of_refs rfl rfl rfl)
    have acted := actAll_strides free touch (s := s.logRun (.user label actions)) here hand flight
      focus actions
    have recorded := Strides.quiet free (Move.record
      ⟨((s.logRun (.user label actions)).actAll focus c.heap.pins actions).1, hand, [], flight⟩
      ⟨label, ((s.logRun (.user label actions)).actAll focus c.heap.pins actions).2⟩)
      (.of_refs rfl rfl rfl)
    exact begun.trans (acted.trans recorded)

theorem deliverAll_strides (focus : Focus) (due : List Finalizer) :
    Strides T ⟨s, hand, [], due ++ flight⟩
      ⟨s.deliverAll focus c.heap.pins due, hand, [], flight⟩ := by
  induction due generalizing s with
  | nil => exact .refl
  | cons f rest ih =>
    have first := deliver_strides free touch here hand (rest ++ flight) focus f
    have there : (s.deliver focus c.heap.pins f).collector? i = some c :=
      (collector?_congr (s.collectors_deliver focus _ f) i).trans here
    exact first.trans (ih there)

end Actions

end Session

end WeakRefs
