import WeakRefs.Proofs.Rebinding

/-!
# Sessions with one heap

Where one heap is there, without a script, and nobody pins by hand, all bindings are of this heap,
and the pins are those of the references that are bound.
-/

namespace WeakRefs

/-- The session has one heap, that of the collector `c`, and nobody interferes with it. -/
structure OnlyHeap (c : Collector) (s : Session) : Prop where
  here : s.collector? 0 = some c
  alone : s.collectors.size = 1
  boundKept : BoundKept 0 ⟨s, none, [], []⟩
  ofHeap : AllThrough 0 ⟨s, none, [], []⟩
  pinning : Pinning c.heap.pins ⟨s, none, [], []⟩

theorem Move.binds_first {t : Tag} {m m' : Moment} (move : Move t m m')
    (alone : m.session.collectors.size = 1) {j : Nat} {h : HandleId} {x : ObjectRef}
    (binds : t = .bind j h x) : j = 0 := by
  cases move with
  | attach _ here =>
    cases binds
    have inside := m.session.lt_size_of_collector? here
    omega
  | _ => cases binds

namespace OnlyHeap
variable {c : Collector} {s : Session}

theorem ownership (onlyHeap : OnlyHeap c s) : Ownership ⟨s, none, [], []⟩ :=
    onlyHeap.pinning.ownership

theorem plain (onlyHeap : OnlyHeap c s) : c.IsPlain := onlyHeap.boundKept.plain c onlyHeap.here

theorem sound (onlyHeap : OnlyHeap c s) : c.heap.Sound := onlyHeap.ownership.heaps 0 c onlyHeap.here

theorem isReachable (onlyHeap : OnlyHeap c s) (x : ObjectRef) :
    c.isReachable x = c.heap.isReachable x := onlyHeap.plain.isReachable x

/-- Whoever is bound has its finalizer on the target, and nowhere else. -/
theorem keptOnce (onlyHeap : OnlyHeap c s) {p : Place} {ref : WeakReference}
    (held : s.held p = some ref) {x : ObjectRef} (target : s.target? ref = some x) :
    ∃ b, ref.binding = some b ∧ s.cell b.cell = .bound x ∧ b.pins = c.heap.pins ∧
      c.KeepsOnce (.endBinding b.cell ref.id) b.affiliation.kind x := by
  obtain ⟨b, binding, bound⟩ := Session.binding_of_target? target
  have there := (Moment.held_atRest s p).trans held
  have runtime := (onlyHeap.ofHeap p ref b there binding).2 c onlyHeap.here
  have pins := onlyHeap.pinning.bindings p ref b there binding
  have keptBy := Session.keptInHeap_of_bound onlyHeap.boundKept onlyHeap.here held binding runtime
    bound
  exact ⟨b, binding, bound, pins, keptBy⟩

theorem mem_pinned (onlyHeap : OnlyHeap c s) (h : HandleId) : h ∈ s.pinned c.heap.pins ↔
    ∃ p ref, s.held p = some ref ∧ ref.id = h ∧ s.isBound ref = true := by
  have exact := onlyHeap.pinning.exact h
  simp only [Moment.held_atRest] at exact
  exact exact

/-- Moves that make no heap, shut none down, set no script and pin nothing leave the one heap. -/
theorem moves (onlyHeap : OnlyHeap c s) {T : Tag → Prop} {s' : Session}
    (moves : Moves T ⟨s, none, [], []⟩ ⟨s', none, [], []⟩)
    (calm : ∀ t, T t → t.isDisciplined ∧ t ≠ .script 0) :
    ∃ c', c'.heap.pins = c.heap.pins ∧ OnlyHeap c' s' := by
  have boundKept := onlyHeap.boundKept.run moves fun t allowed => (calm t allowed).2
  have kept : s'.collectors.size = 1 ∧ AllThrough 0 ⟨s', none, [], []⟩ := by
    refine moves.keeps onlyHeap.ownership
      (I := fun m => m.session.collectors.size = 1 ∧ AllThrough 0 m)
      ?_ ⟨onlyHeap.alone, onlyHeap.ofHeap⟩
    rintro t m m' allowed ownership move ⟨alone, ofHeap⟩
    have old : t ≠ .newHeap := by
      rintro rfl
      exact (calm _ allowed).1
    refine ⟨(move.evolves.size old).trans alone, ofHeap.move ownership move ?_⟩
    exact fun j h x => move.binds_first alone
  have pinning : Pinning c.heap.pins ⟨s', none, [], []⟩ :=
    moves.preserves (fun allowed move pinning => pinning.move move (calm _ allowed).1)
      onlyHeap.pinning
  have stays : ∃ c', s'.collector? 0 = some c' := by
    refine moves.preserves (I := fun m => ∃ c', m.session.collector? 0 = some c') ?_
      ⟨c, onlyHeap.here⟩
    rintro t m m' allowed move ⟨d, there⟩
    have running : t ≠ .shutDown 0 := by
      rintro rfl
      exact (calm _ allowed).1
    obtain ⟨d', still, _⟩ := move.evolves.stays running there
    exact ⟨d', still⟩
  obtain ⟨c', here⟩ := stays
  have pins := pinning.collectors 0 c' here
  exact ⟨c', pins, here, kept.1, boundKept, kept.2, pins.symm ▸ pinning⟩

theorem perform (onlyHeap : OnlyHeap c s) {op : Op} (disciplined : op.isDisciplined = true)
    (plain : op.scripts 0 = false) :
    ∃ c', c'.heap.pins = c.heap.pins ∧ OnlyHeap c' (s.perform op).1 :=
  onlyHeap.moves (Session.perform_moves_of_ownership onlyHeap.ownership op) fun _ allowed =>
    ⟨allowed.isDisciplined disciplined, Session.unscripted_of_allows plain allowed⟩

theorem after (onlyHeap : OnlyHeap c s) {ops : List Op}
    (disciplined : ∀ op ∈ ops, op.isDisciplined = true) (plain : ∀ op ∈ ops, op.scripts 0 = false) :
    ∃ c', c'.heap.pins = c.heap.pins ∧ OnlyHeap c' (s.after ops) := by
  induction ops generalizing c s with
  | nil => exact ⟨c, rfl, onlyHeap⟩
  | cons op rest ih =>
    obtain ⟨d, same, next⟩ := onlyHeap.perform (disciplined op List.mem_cons_self)
      (plain op List.mem_cons_self)
    obtain ⟨c', same', last⟩ := ih next (fun one listed => disciplined one
      (List.mem_cons_of_mem _ listed))
      fun one listed => plain one (List.mem_cons_of_mem _ listed)
    exact ⟨c', same'.trans same, last⟩

end OnlyHeap

theorem NothingBound.ofHeap {m : Moment} (nothingBound : NothingBound m) (i : Nat) :
    AllThrough i m :=
  fun p a _ held binding => nomatch (nothingBound.empty p a held).symm.trans binding

theorem NothingBound.onlyHeap {s : Session} (nothingBound : NothingBound ⟨s, none, [], []⟩)
    (config : HeapConfig) :
    ∃ c, OnlyHeap c (s.newHeap config).1 := by
  have opened := Move.newHeap ⟨s, none, [], []⟩ config
  have here := s.collector?_newHeap config 0
  rw [if_pos nothingBound.collectors.symm] at here
  refine ⟨_, here, ?_, (nothingBound.boundKept 0).move opened nofun, ?_, nothingBound.newHeap
    config⟩
  · change (s.collectors.push _).size = 1
    rw [Array.size_push, nothingBound.collectors]
  · exact (nothingBound.ofHeap 0).move nothingBound.ownership opened nofun

theorem Session.onlyHeap {before later : List Op} (config : HeapConfig)
    (first : ∀ op ∈ before, op.isDisciplined = true)
    (then_on : ∀ op ∈ later, op.isDisciplined = true)
    (plain : ∀ op ∈ later, op.scripts 0 = false) {s : Session}
    (run : s = Session.after {} (before ++ .newHeap config :: later)) :
    ∃ c, OnlyHeap c s := by
  have start : NothingBound ⟨{}, none, [], []⟩ := ⟨ownership_empty, rfl, fun p _ here =>
    nomatch (Moment.held_empty p).symm.trans here⟩
  have nothingBound := Session.nothingBound_run start first
  obtain ⟨c, onlyHeap⟩ := nothingBound.onlyHeap config
  obtain ⟨c', _, last⟩ := onlyHeap.after then_on plain
  rw [run, Session.after_append, Session.after_cons]
  exact ⟨c', last⟩

end WeakRefs
