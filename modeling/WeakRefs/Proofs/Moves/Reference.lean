import WeakRefs.Proofs.Focus
import WeakRefs.Proofs.Moves.Heap

/-!
# Operations on references as strides

A bind defines its finalizer before it disarms the previous binding. Neither step looks at what the
other changes, so a bind that succeeds is a disarming followed by the arrival of a binding.
-/

namespace WeakRefs

namespace Session

/-- The session in which a finalizer was defined for a new cell, and ran if it did so at once. -/
def opened (s : Session) (ran : Bool) (handle : HandleId) : Session :=
  { s with
    cells := s.cells.push (if ran then .cleared else .pending)
    runs := if ran then s.runs.push (.endBinding s.cells.size handle) else s.runs }

section Arrays
variable {α : Type}

theorem setIfInBounds_size_push (xs : Array α) (a b : α) :
    (xs.push a).setIfInBounds xs.size b = xs.push b := by
  simp [Array.setIfInBounds, Array.set_push]

theorem setIfInBounds_push_of_lt {xs : Array α} {n : Nat} (inside : n < xs.size) (a b : α) :
    (xs.push a).setIfInBounds n b = (xs.setIfInBounds n b).push a := by
  apply Array.ext_getElem?
  intro j
  simp only [Array.getElem?_setIfInBounds, Array.getElem?_push, Array.size_push,
    Array.size_setIfInBounds]
  by_cases same : n = j
  · have apart : ¬ j = xs.size := by omega
    have within : n < xs.size + 1 := by omega
    simp [same, apart, same ▸ inside, same ▸ within]
  · simp [same]

end Arrays

section Opened
variable (s : Session) (ran : Bool) (handle : HandleId)

theorem cell_opened_of_lt {d : Nat} (inside : d < s.cells.size) :
    (s.opened ran handle).cell d = s.cell d := by
  have apart : d ≠ s.cells.size := Nat.ne_of_lt inside
  simp [opened, cell, Array.getD_eq_getD_getElem?, Array.getElem?_push, apart]

theorem cell_opened_size : (s.opened ran handle).cell s.cells.size =
    if ran then .cleared else .pending := by
  simp [opened, cell, Array.getD_eq_getD_getElem?]

/-- The finalizer of a cell that is still pending only clears it. -/
theorem deliver_newCell (focus : Focus) (roots : Nat) (collectors : Array (Option Collector)) :
    ({ s.newCell.1 with collectors } : Session).deliver focus roots
      (.endBinding s.cells.size handle) = { s.opened true handle with collectors } := by
  have pending : ({ s.newCell.1 with collectors }.logRun
      (.endBinding s.cells.size handle) : Session).cell s.cells.size = .pending := by
    simp [cell, newCell, logRun, Array.getD_eq_getD_getElem?]
  simp only [deliver, carryOut, endBinding, pending, Cell.fire, Firing.releasesPin]
  simp [opened, newCell, logRun, setCell, setIfInBounds_size_push]

theorem supersede_opened {c : Nat} (inside : c < s.cells.size) (pins : Nat) (owner : HandleId)
    (collectors : Array (Option Collector)) :
    ({ s.opened ran handle with collectors } : Session).supersede pins c owner =
      { (s.supersede pins c owner).opened ran handle with collectors } := by
  have same : ({ s.opened ran handle with collectors } : Session).cell c = s.cell c :=
    s.cell_opened_of_lt ran handle inside
  unfold supersede
  rw [same]
  by_cases bound : (s.cell c).isBound = true <;>
    simp [bound, opened, setCell, unpin, modifyPins, setIfInBounds_push_of_lt inside]

theorem disarm_opened {ref : WeakReference}
    (inside : ∀ b, ref.binding = some b → b.cell < s.cells.size) (roots : Nat)
    (collectors : Array (Option Collector)) :
    ({ s.opened ran handle with collectors } : Session).disarm roots ref =
      { (s.disarm roots ref).opened ran handle with collectors } := by
  unfold disarm
  split
  · rename_i b binding
    rw [supersede_opened s ran handle (inside b binding)]
    simp [opened, emit]
  · rfl

theorem install_opened (i : Nat) (c : Collector) (target : ObjectRef) (a : Affiliation) :
    ((((s.opened ran handle).setCollector i c).install c.heap.pins s.cells.size handle
      target).emit (.bound handle a)) = s.arrive i c handle target ran a := by
  have state : ((s.opened ran handle).setCollector i c).cell s.cells.size =
      if ran then .cleared else .pending := s.cell_opened_size ran handle
  unfold install
  rw [state]
  cases ran with
  | true => rfl
  | false =>
    simp [arrive, opened, Cell.isPending, Cell.install, pin, modifyPins, setCell, setCollector,
      emit, setIfInBounds_size_push]

end Opened

section Bind
variable {T : Tag → Prop} {s : Session} {i : Nat} {c : Collector} {hand : Option WeakReference}

/-- The finalizer of a new cell is refused, or the collector receives it; one that is due at once is
counted by the heap. -/
theorem define_newCell (here : s.collector? i = some c) (focus : Focus) (target : ObjectRef)
    (handle : HandleId) {defined : Session × Except RefError Affiliation}
    (result : s.newCell.1.define focus i target (.endBinding s.cells.size handle) = defined) :
    (∃ e, defined = (s.newCell.1.setCollector i c.advance, .error e)) ∨
    ∃ c' ran a, c.Receives target (.endBinding s.cells.size handle) c' ran a ∧
      (defined = ((s.opened ran handle).setCollector i c', .ok a) ∨
        defined = ((s.opened ran handle).setCollector i
          { c' with heap := c'.heap.countRun 1 }, .ok a)) := by
  subst result
  have here' : s.newCell.1.collector? i = some c := here
  rcases s.newCell.1.define_cases here' focus target (.endBinding s.cells.size handle) with
    ⟨e, refused⟩ | ⟨c', ran, a, t, received, done, after⟩
  · exact Or.inl ⟨e, refused⟩
  · refine Or.inr ⟨c', ran, a, received, ?_⟩
    rw [done]
    cases ran with
    | false =>
      have after : t = _ := after
      rw [after]
      exact Or.inl rfl
    | true =>
      have delivered : (s.newCell.1.setCollector i c').deliver focus c.heap.pins
          (.endBinding s.cells.size handle) = (s.opened true handle).setCollector i c' :=
        s.deliver_newCell handle focus c.heap.pins _
      rw [delivered] at after
      rcases after with after | counted
      · rw [after]
        exact Or.inl rfl
      · have there := collector?_setCollector_self (s := s.opened true handle) here c'
        rw [counted, modifyHeap_eq there, setCollector_setCollector]
        exact Or.inr rfl

/-- After a definition that was received, a bind disarms the old binding and completes the new. -/
theorem disarm_install_opened {ref : WeakReference}
    (inside : ∀ b, ref.binding = some b → b.cell < s.cells.size) (target : ObjectRef) (ran : Bool)
    (a : Affiliation) (c' : Collector) :
    (((((s.opened ran ref.id).setCollector i c').disarm c'.heap.pins ref).install c'.heap.pins
      s.cells.size ref.id target).emit (.bound ref.id a)) =
        (s.disarm c'.heap.pins ref).arrive i c' ref.id target ran a := by
  have disarmed := s.disarm_opened ran ref.id inside c'.heap.pins
    (s.collectors.setIfInBounds i (some c'))
  have collectors : (s.disarm c'.heap.pins ref).collectors = s.collectors :=
    s.collectors_disarm _ ref
  have installed := (s.disarm c'.heap.pins ref).install_opened ran ref.id i c' target a
  rw [s.size_cells_disarm] at installed
  rw [← installed]
  congr 2
  refine disarmed.trans ?_
  unfold setCollector
  simp only [opened, collectors]

/-- A bind fails and leaves the reference as it was, or the old binding is disarmed and the new one
arrives. -/
theorem bind_cases (here : s.collector? i = some c) (focus : Focus) (ref : WeakReference)
    (inside : ∀ b, ref.binding = some b → b.cell < s.cells.size) (target : ObjectRef) :
    (∃ e, s.bind focus i ref target =
      ((s.setCollector i c.advance).emitAll (rejection ref.id e), ref, .error e)) ∨
    ∃ c' ran a t, c.Receives target (.endBinding s.cells.size ref.id) c' ran a ∧
      (t = (s.disarm c.heap.pins ref).arrive i c' ref.id target ran a ∨
        t = ((s.disarm c.heap.pins ref).arrive i c' ref.id target ran a).modifyHeap i
          (·.countRun 1)) ∧
      s.bind focus i ref target = (t, { ref with
        binding := some ⟨s.cells.size, a, c.heap.runtime, c.heap.pins⟩ }, .ok a) := by
  have defined := s.define_newCell here focus target ref.id rfl
  generalize result : s.newCell.1.define focus i target (.endBinding s.cells.size ref.id) = d
    at defined
  have opened : s.newCell.2 = s.cells.size := rfl
  unfold bind
  rw [here]
  dsimp only
  rw [opened, result]
  rcases defined with ⟨e, refused⟩ | ⟨c', ran, a, received, kept | counted⟩
  · subst refused
    exact Or.inl ⟨e, rfl⟩
  · subst kept
    have done := disarm_install_opened (i := i) inside target ran a c'
    rw [received.pins.1] at done
    exact Or.inr ⟨c', ran, a, _, received, Or.inl rfl, Prod.ext done rfl⟩
  · subst counted
    have done := disarm_install_opened (i := i) inside target ran a
      { c' with heap := c'.heap.countRun 1 }
    have pins : (c'.heap.countRun 1).pins = c.heap.pins := received.pins.1
    rw [pins] at done
    refine Or.inr ⟨c', ran, a, _, received, Or.inr rfl, Prod.ext (done.trans ?_) rfl⟩
    have here' : (s.disarm c.heap.pins ref).collector? i = some c :=
      ((s.sameButBindings_disarm _ ref).collector? i).trans here
    have there : ((s.disarm c.heap.pins ref).arrive i c' ref.id target ran a).collector? i =
        some c' := collector?_setCollector_self here' c'
    rw [modifyHeap_eq there]
    simp [arrive, setCollector, pins, received.pins.1]

theorem pinsOf_bind (focus : Focus) (ref : WeakReference) (target : ObjectRef) (j : Nat) :
    (s.bind focus i ref target).1.pinsOf j = s.pinsOf j := by
  have defined := pinsOf_define (s := s.newCell.1) (i := i) focus target
    (.endBinding s.newCell.2 ref.id) j
  unfold bind
  split
  · rfl
  · rename_i c here
    dsimp only
    split
    · rw [emitAll_eq]
      exact defined
    · have installed (t : Session) : (t.install c.heap.pins s.newCell.2 ref.id target).collectors =
          t.collectors := by
        unfold install
        split
        · rfl
        · rfl
      refine Eq.trans (pinsOf_congr ?_ j) defined
      exact (installed _).trans (collectors_disarm _ _ _)

/-- A reference that is made and bound has the handle that was handed out for it. -/
theorem id_of_bindNew (s : Session) (focus : Focus) {target : ObjectRef} {ref : WeakReference}
    (made : (s.bindNew focus i target).2 = .ok ref) : ref.id = s.freshHandle.2 := by
  have id : (s.freshHandle.1.bind focus i { id := s.freshHandle.2 } target).2.1.id =
      s.freshHandle.2 := by
    unfold bind
    split
    · rfl
    · dsimp only
      split <;> rfl
  unfold bindNew at made
  dsimp only at made
  generalize s.freshHandle.1.bind focus i { id := s.freshHandle.2 } target = bound at id made
  obtain ⟨t, r, answer⟩ := bound
  cases answer with
  | error e => cases made
  | ok a =>
    cases made
    exact id

theorem setRef_self {r : Nat} {ref : WeakReference} (here : s.ref? r = some ref) :
    s.setRef r (some ref) = s := by
  have inside := s.lt_size_of_ref? here
  have at_r : s.refs[r]? = some (some ref) := Option.join_eq_some_iff.mp here
  unfold setRef
  congr 1
  apply Array.ext_getElem?
  intro j
  rw [Array.getElem?_setIfInBounds]
  by_cases same : r = j
  · subst same
    rw [if_pos rfl, if_pos inside, at_r]
  · rw [if_neg same]

section Strides
variable (free : T .free)

include free

theorem rejection_strides (handle : HandleId) (e : RefError) :
    Strides T ⟨s, hand, [], []⟩ ⟨s.emitAll (rejection handle e), hand, [], []⟩ := by
  cases e with
  | notFinalizable typeName =>
    exact .quiet free (Move.remark ⟨s, hand, [], []⟩ _ rfl) (.of_refs rfl (news_remark _ rfl) rfl)
  | deadObject => exact .refl
  | heapExhausted => exact .refl

theorem put_upkeep_strides {p : Place} (here : s.collector? i = some c)
    {f : Heap Finalizer → Heap Finalizer} (upkeep : c.heap.Upkeep (f c.heap))
    (loose : ∀ x key, p ≠ .entry x key) (ref : WeakReference) :
    Strides T (Moment.put ⟨s, hand, [], []⟩ p ref)
      (Moment.put ⟨s.modifyHeap i f, hand, [], []⟩ p ref) := by
  cases p with
  | ref r => exact upkeep_strides (s := s.setRef r (some ref)) free hand here upkeep
  | entry x key => exact absurd rfl (loose x key)
  | hand => exact upkeep_strides free (some ref) here upkeep

variable (hand) in
/-- A bind that fails leaves the reference as it was. -/
theorem bind_failed_strides (focus : Focus) {ref : WeakReference} {target : ObjectRef}
    (inside : ∀ b, ref.binding = some b → b.cell < s.cells.size) {e : RefError}
    (failed : (s.bind focus i ref target).2.2 = .error e) :
    Strides T ⟨s, hand, [], []⟩ ⟨(s.bind focus i ref target).1, hand, [], []⟩ ∧
      (s.bind focus i ref target).2.1 = ref := by
  cases here : s.collector? i with
  | none =>
    have same : s.bind focus i ref target = (s, ref, .error .deadObject) := by
      unfold bind
      rw [here]
    rw [same]
    exact ⟨.refl, rfl⟩
  | some c =>
    rcases s.bind_cases here focus ref inside target with
      ⟨e', refused⟩ | ⟨c', ran, a, t, received, arrived, done⟩
    · rw [refused]
      have advanced := Strides.quiet free (Move.advance ⟨s, hand, [], []⟩ here)
        (.of_refs rfl rfl rfl)
      exact ⟨advanced.trans (rejection_strides free ref.id e'), rfl⟩
    · rw [done] at failed
      cases failed

/-- A bind of the reference in a place, which is written back: the old binding is disarmed, then the
new one arrives. -/
theorem bind_strides (focus : Focus) {p : Place} {ref : WeakReference}
    (held : Moment.held ⟨s, hand, [], []⟩ p = some ref) (loose : ∀ x key, p ≠ .entry x key)
    (inside : ∀ b, ref.binding = some b → b.cell < s.cells.size) (touch : T (.touch p))
    {target : ObjectRef} {a : Affiliation} (done : (s.bind focus i ref target).2.2 = .ok a)
    (bind : T (.bind i ref.id target)) :
    Strides T ⟨s, hand, [], []⟩ (Moment.put ⟨(s.bind focus i ref target).1, hand, [], []⟩ p
      (s.bind focus i ref target).2.1) := by
  cases here : s.collector? i with
  | none =>
    unfold Session.bind at done
    rw [here] at done
    cases done
  | some c =>
    rcases s.bind_cases here focus ref inside target with
      ⟨e, refused⟩ | ⟨c', ran, a', t, received, arrived, result⟩
    · rw [refused] at done
      cases done
    · rw [result]
      have here' : (s.disarm c.heap.pins ref).collector? i = some c :=
        ((s.sameButBindings_disarm c.heap.pins ref).collector? i).trans here
      have rebound := Strides.single (.rebind ⟨s, hand, [], []⟩ touch bind here held loose rfl
        received)
      refine rebound.trans ?_
      rcases arrived with arrived | counted
      · rw [arrived]
        exact .refl
      · rw [counted]
        have there : ((s.disarm c.heap.pins ref).arrive i c' ref.id target ran a').collector? i =
            some c' := collector?_setCollector_self here' c'
        exact put_upkeep_strides free there (f := (·.countRun 1)) (.countRun 1) loose _

/-- A bind of a new reference, which is in hand afterwards if the bind succeeded. -/
theorem bindNew_strides (focus : Focus) (touch : T (.touch .hand)) (take : T (.arrive .hand))
    (target : ObjectRef) (bind : T (.bind i s.freshHandle.2 target)) : Strides T ⟨s, none, [], []⟩
      ⟨(s.bindNew focus i target).1, (s.bindNew focus i target).2.toOption, [], []⟩ := by
  have taken := Strides.quiet take (Move.take ⟨s, none, [], []⟩ rfl) (.of_refs rfl rfl rfl)
  have unbound : ∀ b, ({ id := s.freshHandle.2 } : WeakReference).binding = some b →
      b.cell < s.freshHandle.1.cells.size := fun b none => nomatch none
  have held : Moment.held ⟨s.freshHandle.1, some { id := s.freshHandle.2 }, [], []⟩ .hand =
      some { id := s.freshHandle.2 } := rfl
  have bound {a : Affiliation} (done : (s.freshHandle.1.bind focus i { id := s.freshHandle.2 }
      target).2.2 = .ok a) := bind_strides free focus held nofun unbound touch done bind
  have failed {e : RefError} (failed : (s.freshHandle.1.bind focus i { id := s.freshHandle.2 }
      target).2.2 = .error e) :=
    bind_failed_strides (some { id := s.freshHandle.2 }) free focus unbound failed
  unfold bindNew
  dsimp only
  generalize s.freshHandle.1.bind focus i { id := s.freshHandle.2 } target = made at bound failed
  obtain ⟨t, r, answer⟩ := made
  cases answer with
  | ok a => exact taken.trans (bound rfl)
  | error e =>
    obtain ⟨strides, same⟩ := failed rfl
    have empty : t.isBound { id := s.freshHandle.2 } = false := rfl
    exact taken.trans (strides.trans (.quiet free (Move.dropHand ⟨t, _, [], []⟩ rfl empty)
      (.of_refs rfl rfl rfl)))

theorem addRefTo_strides (touch : T (.touch .hand)) (take : T (.arrive .hand)) (target : ObjectRef)
    (bind : T (.bind i s.freshHandle.2 target))
    (enlist : ∀ ref, (s.bindNew .idle i target).2 = .ok ref → T (.arrive (.ref s.refs.size))) :
    Strides T ⟨s, none, [], []⟩ ⟨(s.addRefTo i target).1, none, [], []⟩ := by
  have made := bindNew_strides (s := s) (i := i) free .idle touch take target bind
  have size := (stableView_size_refs .idle).bindNew s i target
  rw [← size] at enlist
  unfold addRefTo
  dsimp only at enlist ⊢
  generalize s.bindNew .idle i target = bound at made enlist
  obtain ⟨t, answer⟩ := bound
  cases answer with
  | ok ref =>
    exact made.trans (.quiet (enlist ref rfl) (Move.enlist ⟨t, some ref, [], []⟩ rfl)
      (.addRef t (some ref) [] [] (some ref) none))
  | error e =>
    exact made.trans (.quiet free (Move.newTrace ⟨t, none, [], []⟩)
      (.addRef t none [] [] none none))

end Strides

end Bind

section Read
variable {T : Tag → Prop} {s : Session} {i : Nat} {hand : Option WeakReference} {p : Place}
variable {ref : WeakReference} (touch : T (.touch p))
include touch

theorem read_strides (held : Moment.held ⟨s, hand, [], []⟩ p = some ref) :
    Strides T ⟨s, hand, [], []⟩ ⟨(s.read i ref).1, hand, [], []⟩ := by
  unfold read
  split
  · rename_i c b here binding
    split
    · exact .refl
    · rename_i target found
      have state := ((s.cell b.cell).get?_eq_some_iff target).mp found
      split
      · exact .refl
      · rename_i unreachable
        exact .single (.clear ⟨s, hand, [], []⟩ touch here held binding state
          (Bool.eq_false_iff.mpr unreachable))
  · exact .refl

variable (free : T .free) (touches : ∀ r, T (.touch (.ref r)))
include free touches

theorem object_strides {focus : Focus} (covers : focus.Covers p) (held : s.held p = some ref) :
    Strides T ⟨s, none, [], []⟩ ⟨(s.object focus i ref).1, none, [], []⟩ := by
  unfold object
  split
  · exact .refl
  · split
    · have refreshed := refresh_strides (s := s) (i := i) free touches none focus ref
      have still := ((stableView_held covers).refresh s i ref).trans held
      rw [← Moment.held_atRest] at still
      exact refreshed.trans (read_strides touch still)
    · exact .refl

theorem defineOn_strides {focus : Focus} (covers : focus.Covers p) (held : s.held p = some ref)
    {label : String} {actions : List Action} (allowed : T (.define (.user label actions))) :
    Strides T ⟨s, none, [], []⟩ ⟨(s.defineOn focus i ref (.user label actions)).1, none, [],
      []⟩ := by
  have found := object_strides (i := i) touch free touches covers held
  unfold defineOn
  dsimp only
  split
  · exact found
  · rename_i target answer
    exact found.trans (define_strides free touches none focus target allowed trivial)

end Read

end Session

end WeakRefs
