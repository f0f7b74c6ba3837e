import WeakRefs.Proofs.Moves.Reference
import WeakRefs.Proofs.Pending

/-!
# What a bind does

A definition goes by the kind of the target. So a bind comes in three forms: the finalizer is kept,
it ran because the target is dead, or the target takes no finalizer and nothing was done.
-/

namespace WeakRefs

namespace Heap
variable {φ : Type} {h : Heap φ} {r : ObjectRef}

theorem define_dead (dead : h.object? r = none) (f : φ) : h.define r f = .due := by
  unfold define
  rw [dead]

theorem define_immediate (kind : h.kind? r = some .immediate) (f : φ) :
    h.define r f = .refused (.notFinalizable ObjectKind.immediate.name) := by
  obtain ⟨o, live, same⟩ := Option.map_eq_some_iff.mp kind
  unfold define
  rw [live]
  dsimp only
  rw [same]

theorem define_live {kind : ObjectKind} (live : h.kind? r = some kind) (takes : kind ≠ .immediate)
    (f : φ) : ∃ heap a, h.define r f = .kept heap a ∧ (a = .direct ↔ kind = .emittable) := by
  obtain ⟨o, here, same⟩ := Option.map_eq_some_iff.mp live
  unfold define
  rw [here]
  dsimp only
  rw [same]
  cases kind with
  | immediate => exact absurd rfl takes
  | emittable => exact ⟨_, _, rfl, by decide⟩
  | plain => exact ⟨_, _, rfl, by decide⟩

end Heap

namespace Session
variable {s : Session} {i : Nat} {c : Collector} (here : s.collector? i = some c)
variable (passes : c.nextDirective = .pass) (focus : Focus)
include here passes

theorem define_pass (r : ObjectRef) (f : Finalizer) :
    s.define focus i r f = match c.heap.define r f with
      | .kept heap a => (s.setCollector i { c.advance with heap }, .ok a)
      | .due => ((s.setCollector i c.advance).deliverDue focus i c.heap.pins [f], .ok .indirect)
      | .refused e => (s.setCollector i c.advance, .error e) := by
  have there := collector?_setCollector_self here c.advance
  unfold define
  rw [here]
  dsimp only
  rw [s.modifyCollector_eq here, passes]
  dsimp only
  unfold attach
  cases c.heap.define r f with
  | kept heap a =>
    dsimp only
    rw [modifyHeap_eq there, setCollector_setCollector]
  | due => rfl
  | refused e => rfl

section Bind
variable {ref : WeakReference} {target : ObjectRef}

theorem bind_immediate (kind : c.heap.kind? target = some .immediate) :
    s.bind focus i ref target = ((s.setCollector i c.advance).emit
      (.notFinalizable ref.id ObjectKind.immediate.name), ref,
        .error (.notFinalizable ObjectKind.immediate.name)) := by
  have here' : s.newCell.1.collector? i = some c := here
  have refused := define_pass here' passes focus target (.endBinding s.newCell.2 ref.id)
  rw [Heap.define_immediate kind] at refused
  unfold bind
  rw [here]
  dsimp only
  rw [refused]
  rfl

variable (inside : ∀ b, ref.binding = some b → b.cell < s.cells.size)
include inside

theorem bind_kept {heap : Heap Finalizer} {a : Affiliation}
    (kept : c.heap.define target (.endBinding s.cells.size ref.id) = .kept heap a) :
    s.bind focus i ref target =
      ((s.disarm c.heap.pins ref).arrive i { c.advance with heap } ref.id target false a,
        { ref with binding := some ⟨s.cells.size, a, c.heap.runtime, c.heap.pins⟩ }, .ok a) := by
  have here' : s.newCell.1.collector? i = some c := here
  have defined := define_pass here' passes focus target (.endBinding s.newCell.2 ref.id)
  have kept' : c.heap.define target (.endBinding s.newCell.2 ref.id) = .kept heap a := kept
  rw [kept'] at defined
  have installed := disarm_install_opened (i := i) inside target false a { c.advance with heap }
  have pins : heap.pins = c.heap.pins := (Heap.pins_of_kept kept).1
  rw [pins] at installed
  unfold bind
  rw [here]
  dsimp only
  rw [defined]
  exact Prod.ext installed rfl

theorem bind_due (dead : c.heap.object? target = none) :
    s.bind focus i ref target = (((s.disarm c.heap.pins ref).arrive i
      { c.advance with heap := c.heap.countRun 1 } ref.id target true .indirect),
        { ref with binding := some ⟨s.cells.size, .indirect, c.heap.runtime, c.heap.pins⟩ },
        .ok .indirect) := by
  have here' : s.newCell.1.collector? i = some c := here
  have defined := define_pass here' passes focus target (.endBinding s.newCell.2 ref.id)
  rw [Heap.define_dead dead] at defined
  have delivered : (s.newCell.1.setCollector i c.advance).deliverDue focus i c.heap.pins
      [.endBinding s.newCell.2 ref.id] =
        (s.opened true ref.id).setCollector i { c.advance with heap := c.heap.countRun 1 } := by
    have there := collector?_setCollector_self (s := s.opened true ref.id) here c.advance
    have ran := s.deliver_newCell ref.id focus c.heap.pins
      (s.collectors.setIfInBounds i (some c.advance))
    unfold deliverDue
    exact (congrArg (modifyHeap · i (·.countRun 1)) ran).trans
      ((modifyHeap_eq there _).trans (setCollector_setCollector _ _ _))
  have installed := disarm_install_opened (i := i) inside target true .indirect
    { c.advance with heap := c.heap.countRun 1 }
  have pins : (c.heap.countRun 1).pins = c.heap.pins := rfl
  rw [pins] at installed
  unfold bind
  rw [here]
  dsimp only
  rw [defined]
  dsimp only
  rw [delivered]
  exact Prod.ext installed rfl

end Bind

end Session

end WeakRefs
