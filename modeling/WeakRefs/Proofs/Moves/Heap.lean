import WeakRefs.Proofs.Moves.Delivery

/-!
# Heap operations as strides

A reclamation is one move; the finalizers that it makes due are delivered one by one. A definition
is received by the collector, and delivered if it was due at once.
-/

namespace WeakRefs

/-- Only a script makes a collector deviate. -/
theorem Collector.script_ne_nil (c : Collector) {d : Directive} (next : c.nextDirective = d)
    (not_pass : d ≠ .pass) : c.script ≠ [] := by
  intro none
  apply not_pass
  rw [← next, nextDirective, none]
  rfl

theorem Heap.object?_eq_none_of_due {φ : Type} {h : Heap φ} {r : ObjectRef} {f : φ}
    (due : h.define r f = .due) : h.object? r = none := by
  unfold define at due
  split at due
  · assumption
  · split at due <;> cases due

namespace Session
variable {T : Tag → Prop} (free : T .free) (touch : ∀ r, T (.touch (.ref r)))
variable {s : Session} {i : Nat} {c : Collector} (hand : Option WeakReference)

theorem modifyHeap_eq (here : s.collector? i = some c) (f : Heap Finalizer → Heap Finalizer) :
    s.modifyHeap i f = s.setCollector i { c with heap := f c.heap } := s.modifyCollector_eq here _

theorem collector?_setCollector_self (here : s.collector? i = some c) (c' : Collector) :
    (s.setCollector i c').collector? i = some c' := by
  rw [s.collector?_setCollector here, if_pos rfl]

theorem collector?_emitAll (es : List Event) (j : Nat) :
    (s.emitAll es).collector? j = s.collector? j := by
  rw [emitAll_eq]
  rfl

theorem collector?_settle (here : s.collector? i = some c) (focus : Focus)
    (outcome : Heap Finalizer × List (Reclaimed Finalizer)) :
    (s.settle focus i outcome).collector? i = some { c with
      heap := outcome.1.countRun (outcome.2.flatMap Reclaimed.due).length } := by
  unfold settle deliverDue
  rw [modifyHeap_eq here, modifyHeap, collector?_modifyCollector, if_pos rfl,
    collector?_congr (collectors_deliverAll _ _ _ _) i, collector?_emitAll,
    collector?_setCollector_self here]
  rfl

theorem collector?_collect (here : s.collector? i = some c) (focus : Focus) :
    (s.collect focus i).1.collector? i = some { c with
      heap := (c.heap.sweep.1.countRun
        (c.heap.sweep.2.flatMap Reclaimed.due).length).countCollection } := by
  have settled := collector?_settle here focus c.heap.sweep
  have counted := collector?_modifyCollector (s.settle focus i c.heap.sweep) i i
    fun c => { c with heap := c.heap.countCollection }
  rw [if_pos rfl, settled] at counted
  unfold collect
  rw [here]
  dsimp only
  exact (collector?_congr (collectors_emit _ _) i).trans counted

/-- A finalizer is refused, or the collector receives it; then it is kept, or it runs at once, in
which case the heap may count it. -/
theorem define_cases (here : s.collector? i = some c) (focus : Focus) (r : ObjectRef)
    (f : Finalizer) :
    (∃ e, s.define focus i r f = (s.setCollector i c.advance, .error e)) ∨ ∃ c' ran a t,
      c.Receives r f c' ran a ∧ s.define focus i r f = (t, .ok a) ∧
      (if ran then t = (s.setCollector i c').deliver focus c.heap.pins f ∨
          t = ((s.setCollector i c').deliver focus c.heap.pins f).modifyHeap i (·.countRun 1)
        else t = s.setCollector i c') := by
  have there := collector?_setCollector_self here c.advance
  unfold define
  rw [here]
  dsimp only
  rw [s.modifyCollector_eq here]
  split
  · unfold attach
    split
    · rename_i heap a kept
      refine Or.inr ⟨_, false, a, _, .kept kept, rfl, ?_⟩
      rw [modifyHeap_eq there, setCollector_setCollector]
      rfl
    · rename_i due
      refine Or.inr ⟨c.advance, true, .indirect, ((s.setCollector i c.advance).deliver focus
        c.heap.pins f).modifyHeap i (·.countRun 1), .due (Heap.object?_eq_none_of_due due), ?_,
        Or.inr rfl⟩
      simp only [deliverDue, deliverAll, List.foldl_cons, List.foldl_nil, List.length_singleton]
    · rename_i e refused
      exact Or.inl ⟨e, rfl⟩
  · rename_i e next
    exact Or.inl ⟨e, rfl⟩
  · rename_i a next
    exact Or.inr ⟨_, true, a, _, .now a (c.script_ne_nil next (by simp)), rfl, Or.inl rfl⟩
  · rename_i a next
    refine Or.inr ⟨_, false, a, _, .stashed a (c.script_ne_nil next (by simp)), rfl, ?_⟩
    rw [modifyCollector_eq _ there, setCollector_setCollector]
    rfl
  · rename_i a next
    exact Or.inr ⟨_, false, a, _, .lost a (c.script_ne_nil next (by simp)), rfl, rfl⟩

section Pins

theorem pinsOf_congr {s s' : Session} (same : s'.collectors = s.collectors) (i : Nat) :
    s'.pinsOf i = s.pinsOf i := by
  unfold pinsOf
  rw [collector?_congr same]

theorem pinsOf_modifyCollector {f : Collector → Collector} (j : Nat)
    (kept : ∀ c, s.collector? i = some c → (f c).heap.pins = c.heap.pins) :
    (s.modifyCollector i f).pinsOf j = s.pinsOf j := by
  unfold pinsOf
  rw [collector?_modifyCollector]
  split
  · rename_i same
    subst same
    cases here : s.collector? i with
    | none => rfl
    | some c => exact congrArg some (kept c here)
  · rfl

/-- No definition changes the pin set of a collector. -/
theorem pinsOf_define (focus : Focus) (r : ObjectRef) (f : Finalizer) (j : Nat) :
    (s.define focus i r f).1.pinsOf j = s.pinsOf j := by
  cases here : s.collector? i with
  | none =>
    unfold define
    rw [here]
  | some c =>
    have set {c' : Collector} (pins : c'.heap.pins = c.heap.pins) :
        (s.setCollector i c').pinsOf j = s.pinsOf j := by
      rw [← s.modifyCollector_eq here fun _ => c']
      apply pinsOf_modifyCollector
      intro d there
      rw [here] at there
      cases there
      exact pins
    have kept (t : Session) : (t.modifyHeap i (·.countRun 1)).pinsOf j = t.pinsOf j :=
      pinsOf_modifyCollector j fun _ _ => rfl
    rcases s.define_cases here focus r f with ⟨e, refused⟩ | ⟨c', ran, a, t, received, done, after⟩
    · rw [refused]
      exact set rfl
    · rw [done]
      have pins := set received.pins.1
      have delivered := (pinsOf_congr ((s.setCollector i c').collectors_deliver focus c.heap.pins f)
        j).trans pins
      cases ran with
      | false =>
        have after : t = _ := after
        rw [after]
        exact pins
      | true =>
        rcases after with after | counted
        · rw [after]
          exact delivered
        · rw [counted]
          exact (kept _).trans delivered

end Pins

section Upkeep
include free

theorem upkeep_strides {running : List Action} {flight : List Finalizer}
    (here : s.collector? i = some c) {f : Heap Finalizer → Heap Finalizer}
    (upkeep : c.heap.Upkeep (f c.heap)) : Strides T ⟨s, hand, running, flight⟩
    ⟨s.modifyHeap i f, hand, running, flight⟩ := by
  rw [modifyHeap_eq here]
  exact .quiet free (Move.upkeep ⟨s, hand, running, flight⟩ here upkeep) (.of_refs rfl rfl rfl)

include touch

/-- Delivery on behalf of a heap, with what is due already in flight. -/
theorem deliverDue_strides (here : s.collector? i = some c) (focus : Focus) (due : List Finalizer) :
    Strides T ⟨s, hand, [], due⟩ ⟨s.deliverDue focus i c.heap.pins due, hand, [], []⟩ := by
  have delivered := deliverAll_strides free touch here hand [] focus due
  rw [List.append_nil] at delivered
  have there : (s.deliverAll focus c.heap.pins due).collector? i = some c :=
    (collector?_congr (s.collectors_deliverAll focus _ due) i).trans here
  exact delivered.trans (upkeep_strides free hand there (.countRun due.length))

theorem settle_strides (here : s.collector? i = some c) (focus : Focus)
    {outcome : Heap Finalizer × List (Reclaimed Finalizer)}
    (reclamation : c.heap.Reclamation outcome) :
    Strides T ⟨s, hand, [], []⟩ ⟨s.settle focus i outcome, hand, [], []⟩ := by
  have reclaimed := Strides.quiet free (Move.reclaim ⟨s, hand, [], []⟩ here rfl rfl reclamation)
    (.of_refs (by rw [emitAll_eq]; rfl) (news_reclaimed _ _) (by rw [emitAll_eq]; rfl))
  have there : ((s.setCollector i { c with heap := outcome.1 }).emitAll
      (reclaimedEvents outcome.2)).collector? i = some { c with heap := outcome.1 } := by
    rw [collector?_emitAll, collector?_setCollector_self here]
  have delivered := deliverDue_strides free touch hand there focus
    (outcome.2.flatMap Reclaimed.due)
  unfold settle
  rw [modifyHeap_eq here]
  exact reclaimed.trans delivered

theorem collect_strides (focus : Focus) :
    Strides T ⟨s, hand, [], []⟩ ⟨(s.collect focus i).1, hand, [], []⟩ := by
  unfold collect
  split
  · exact .refl
  · rename_i c here
    have settled := settle_strides free touch hand here focus .sweep
    have there := collector?_settle here focus c.heap.sweep
    have counted : Strides T ⟨s.settle focus i c.heap.sweep, hand, [], []⟩
        ⟨(s.settle focus i c.heap.sweep).modifyHeap i Heap.countCollection, hand, [], []⟩ :=
      upkeep_strides free hand there .countCollection
    exact settled.trans (counted.trans (.quiet free (Move.remark _ _ rfl)
      (.of_refs rfl (news_remark _ rfl) rfl)))

theorem releaseRoot_strides (r : ObjectRef) :
    Strides T ⟨s, hand, [], []⟩ ⟨s.releaseRoot i r, hand, [], []⟩ := by
  unfold releaseRoot
  split
  · exact .refl
  · rename_i c here
    exact settle_strides free touch hand here .idle (.release r)

theorem refresh_strides (focus : Focus) (r : WeakReference) :
    Strides T ⟨s, hand, [], []⟩ ⟨s.refresh focus i r, hand, [], []⟩ := by
  unfold refresh
  split
  · exact collect_strides free touch hand focus
  · exact .refl

/-- A definition that is not a bind's: the collector receives the finalizer or refuses it. -/
theorem define_strides (focus : Focus) (r : ObjectRef) {f : Finalizer} (allowed : T (.define f))
    (proper : Moment.MayDefine ⟨s, hand, [], []⟩ f) :
    Strides T ⟨s, hand, [], []⟩ ⟨(s.define focus i r f).1, hand, [], []⟩ := by
  cases here : s.collector? i with
  | none =>
    unfold define
    rw [here]
    exact .refl
  | some c =>
    rcases s.define_cases here focus r f with ⟨e, refused⟩ | ⟨c', ran, a, t, received, done, after⟩
    · rw [refused]
      exact .quiet free (Move.advance ⟨s, hand, [], []⟩ here) (.of_refs rfl rfl rfl)
    · have taken := Strides.quiet allowed
        (Move.receive ⟨s, hand, [], []⟩ here rfl rfl proper received) (.of_refs rfl rfl rfl)
      rw [done]
      cases ran with
      | false =>
        have after : t = _ := after
        rw [after]
        exact taken
      | true =>
        have there := collector?_setCollector_self here c'
        have delivered := deliver_strides free touch there hand [] focus f
        rw [received.pins.1] at delivered
        refine taken.trans (delivered.trans ?_)
        rcases after with after | counted
        · rw [after]
          exact .refl
        · rw [counted]
          have still := (collector?_congr ((s.setCollector i c').collectors_deliver focus
            c.heap.pins f) i).trans there
          exact upkeep_strides free hand still (f := (·.countRun 1)) (.countRun 1)

theorem fireStashed_strides (position : Nat) :
    Strides T ⟨s, hand, [], []⟩ ⟨(s.fireStashed i position).1, hand, [], []⟩ := by
  unfold fireStashed
  split
  · exact .refl
  rename_i c here
  split
  · exact .refl
  rename_i f stashed
  have taken := Strides.quiet free (Move.unstash ⟨s, hand, [], []⟩ here rfl rfl stashed)
    (.of_refs rfl rfl rfl)
  have there := collector?_setCollector_self here
    { c with stash := c.stash.eraseIdx position }
  rw [s.modifyCollector_eq here]
  exact taken.trans (deliver_strides free touch there hand [] .idle f)

end Upkeep

theorem alloc_strides (allowed : T .alloc) (kind : ObjectKind) :
    Strides T ⟨s, hand, [], []⟩ ⟨(s.alloc i kind).1, hand, [], []⟩ := by
  unfold alloc
  split
  · exact .refl
  rename_i c here
  split
  · rename_i heap r allocated
    rw [modifyHeap_eq here]
    exact .quiet allowed (Move.alloc ⟨s, hand, [], []⟩ here rfl allocated) (.of_refs rfl rfl rfl)
  · exact .refl

section ShutDown
variable {groups : List (ObjectRef × List Finalizer)}
variable (ending : T (.shutDown i))
include free touch ending

/-- After a shutdown was put on record, it ends by closing the heap; before that the heap is drained
and its finalizers have been delivered, or it is as it was. -/
theorem shutDownIn_recorded (here : s.collector? i = some c)
    (all : groups.Perm c.heap.sideTable.pairs) :
    ∃ u heap, Strides T ⟨s.recordTornDown c.heap.runtime, hand, [], []⟩ ⟨u, hand, [], []⟩ ∧
      u.collector? i = some { c with heap } ∧ heap.pins = c.heap.pins ∧
      (c.heap.config.teardown = .fire → heap = c.heap.emptied) ∧
      s.shutDownIn i c.heap groups =
        { u.clearPins heap.pins with collectors := u.collectors.setIfInBounds i none } := by
  have there : (s.recordTornDown c.heap.runtime).collector? i = some c := by
    unfold recordTornDown
    split
    · exact here
    · exact here
  unfold shutDownIn
  generalize s.recordTornDown c.heap.runtime = t at there
  cases c.heap.config.teardown with
  | fire =>
    have drained := Strides.quiet ending (Move.drain ⟨t, hand, [], []⟩ there rfl rfl all)
      (.of_refs rfl rfl rfl)
    have emptied := collector?_setCollector_self there { c with heap := c.heap.emptied }
    have delivered := deliverAll_strides free touch emptied hand [] .idle
      (c.heap.pendingDirect ++ groups.flatMap Prod.snd)
    rw [List.append_nil] at delivered
    have still := (collector?_congr (collectors_deliverAll _ .idle c.heap.pins
      (c.heap.pendingDirect ++ groups.flatMap Prod.snd)) i).trans emptied
    refine ⟨_, c.heap.emptied, drained.trans delivered, still, rfl, fun _ => rfl, ?_⟩
    rw [← modifyHeap_eq there]
    rfl
  | drop =>
    have remarked := Strides.quiet free (Move.remark ⟨t, hand, [], []⟩ (.discarded
      (c.heap.pendingDirect ++ groups.flatMap Prod.snd).length) rfl)
      (.of_refs rfl (news_remark _ rfl) rfl)
    exact ⟨_, c.heap, remarked, there, rfl, nofun, rfl⟩

theorem shutDownIn_strides (here : s.collector? i = some c)
    (all : groups.Perm c.heap.sideTable.pairs) :
    Strides T ⟨s.recordTornDown c.heap.runtime, hand, [], []⟩
      ⟨s.shutDownIn i c.heap groups, hand, [], []⟩ := by
  obtain ⟨u, heap, strides, there, _, _, closed⟩ :=
    shutDownIn_recorded free touch hand ending here all
  rw [closed]
  exact strides.trans (.quiet ending (Move.close ⟨u, hand, [], []⟩ there rfl)
    (.of_refs rfl rfl rfl))

variable (mourning : ∀ x, T (.tornDown x))
include mourning

/-- A shutdown as moves, of which the last one closes the heap. -/
theorem shutDownIn_closes (here : s.collector? i = some c)
    (all : groups.Perm c.heap.sideTable.pairs) :
    ∃ u heap, Moves T ⟨s, hand, [], []⟩ ⟨u, hand, [], []⟩ ∧
      u.collector? i = some { c with heap } ∧ heap.pins = c.heap.pins ∧
      (c.heap.config.teardown = .fire → heap = c.heap.emptied) ∧
      s.shutDownIn i c.heap groups =
        { u.clearPins heap.pins with collectors := u.collectors.setIfInBounds i none } := by
  obtain ⟨u, heap, strides, rest⟩ := shutDownIn_recorded free touch hand ending here all
  have tornDown := Moves.single (mourning _)
    (Move.tornDown ⟨s, hand, [], []⟩ c.heap.runtime)
  exact ⟨u, heap, tornDown.trans strides.moves, rest⟩

theorem shutDownIn_moves (here : s.collector? i = some c)
    (all : groups.Perm c.heap.sideTable.pairs) :
    Moves T ⟨s, hand, [], []⟩ ⟨s.shutDownIn i c.heap groups, hand, [], []⟩ := by
  have tornDown := Moves.single (mourning _)
    (Move.tornDown ⟨s, hand, [], []⟩ c.heap.runtime)
  exact tornDown.trans (shutDownIn_strides free touch hand ending here all).moves

theorem shutDown_moves : Moves T ⟨s, hand, [], []⟩ ⟨s.shutDown i, hand, [], []⟩ := by
  unfold shutDown
  split
  · rename_i c here
    exact shutDownIn_moves free touch hand ending mourning here (List.mergeSort_perm _ _)
  · exact .refl

end ShutDown

end Session

end WeakRefs
