import WeakRefs.Proofs.GoneHeap

/-!
# The end of a heap

When a heap is shut down its runtime is not alive and its pin set is empty, whatever the finalizers
do that run. By policy pending finalizers are fired or dropped. References and maps used with this
heap only can be used with others.
-/

namespace WeakRefs

/-- What is so of heap `h`, which had number `i`, after its shutdown. -/
structure TornDown (i : Nat) (h : Heap Finalizer) (s : Session) : Prop where
  dead : s.isAlive h.runtime = false
  unpinned : s.pinned h.pins = ∅
  gone : s.collector? i = none
  /-- A heap that was torn down is not shut down again when it is dropped. -/
  once : s.perform (.shutDown i) = (s, .done)

/-- Pending finalizers were fired: no binding against heap `h` is in force, and a map that was used
through this heap only loses all entries with the next operation on it. -/
structure Fired (ops : List Op) (i : Nat) (h : Heap Finalizer) (s : Session) : Prop where
  unbound : ∀ p a b, s.held p = some a → a.binding = some b → b.runtime = h.runtime →
    s.isBound a = false
  emptied : ∀ x, (∀ op ∈ ops, op.keepsTo i x = true) → ∀ more, (∀ op ∈ more, op.map? ≠ some x) →
    ∀ op k c, op.map? = some x → op.heap? = some k → (s.after more).collector? k = some c →
      ∀ key r, Session.entry? ((s.after more).perform op).1 x key = some r →
        r.id = (s.after more).freshHandle.2 ∧ ∃ v, op = .mapInsert k x key v

/-- Pending finalizers were dropped: none ran, and every reference is what it was. -/
structure Dropped (s s' : Session) : Prop where
  runs : s'.runs = s.runs
  held : ∀ p, s'.held p = s.held p
  cell : ∀ d, s'.cell d = s.cell d
  isBound : ∀ a, s'.isBound a = s.isBound a

/-- A handle is bound through heap `i` only, in a run and in what comes after session `s`. -/
def BoundOnly (i : Nat) (h : HandleId) (ops : List Op) (s : Session) (more : List Op) : Prop :=
  Session.BindsThrough {} i h ops ∧ s.BindsThrough i h more

/-- How references and maps behave that were used in `ops` with heap `h` only, when this was shut
down, which left session `s`, and `more` came after. -/
structure Outlived (ops : List Op) (i : Nat) (h : Heap Finalizer) (s : Session) (more : List Op) :
    Prop where
  dead : (s.after more).isAlive h.runtime = false
  /-- The pin set of the heap is that of no other. -/
  apart : ∀ k c, (s.after more).collector? k = some c → c.heap.pins ≠ h.pins
  object : ∀ r a, (s.after more).ref? r = some a → BoundOnly i a.id ops s more →
    ∀ k, (s.after more).perform (.object k r) = (s.after more, .object none)
  get : ∀ x key, (∀ op ∈ ops, op.keepsTo i x = true) → (∀ j v, .mapInsert j x key v ∉ more) → ∀ k,
    ((s.after more).perform (.mapGet k x key)).2 = .object none ∧
      Unnoticed (s.after more) (.mapGet k x key)
  release : ∀ r a, (s.after more).ref? r = some a → BoundOnly i a.id ops s more →
    (∀ op ∈ ops ++ more, op.pinsElsewhere i h.pins a.id = false) →
      ∀ k q, ((s.after more).perform (.releaseRef k r)).1.pinned q = (s.after more).pinned q
  dropRef : ∀ r a, (s.after more).ref? r = some a → BoundOnly i a.id ops s more →
    ∀ q, q ≠ h.pins → ((s.after more).perform (.dropRef r)).1.pinned q = (s.after more).pinned q
  dropMap : ∀ x, (∀ op ∈ ops, op.keepsTo i x = true) → (∀ j key v, .mapInsert j x key v ∉ more) →
    ∀ q, q ≠ h.pins → ((s.after more).perform (.dropMap x)).1.pinned q = (s.after more).pinned q

section Emptied
variable {u : Session} {i x : Nat} {key : String} {c : Collector}
variable (emptied : u.collector? i = some { c with heap := c.heap.emptied })
include emptied

theorem not_keptInHeap_of_emptied {f : Finalizer} {kind : ObjectKind} {v : ObjectRef} :
    ¬ KeptInHeap i f kind v ⟨u, none, [], []⟩ := by
  intro inHeap
  obtain ⟨d, at_i, keptOnce⟩ := inHeap.keptBy
  rw [emptied] at at_i
  cases at_i
  have once := keptOnce.once
  rw [Heap.pendingOf_emptied] at once
  cases once

theorem unbound_of_emptied (boundKept : BoundKept i ⟨u, none, [], []⟩) {p : Place}
    {a : WeakReference} {b : Binding} (held : u.held p = some a) (binding : a.binding = some b)
    (ofHeap : b.runtime = c.heap.runtime) : u.isBound a = false := by
  have held : Moment.held ⟨u, none, [], []⟩ p = some a := (Moment.held_atRest u p).trans held
  rw [u.isBound_of_binding binding]
  cases state : (u.cell b.cell).isBound with
  | false => rfl
  | true =>
    obtain ⟨v, bound⟩ := (Cell.isBound_iff _).mp state
    rcases boundKept.keptOnce _ p a b v emptied held binding ofHeap bound with inHeap | flies
    · exact absurd inHeap (not_keptInHeap_of_emptied emptied)
    · cases flies

theorem StaleEntry.of_emptied {a : Option ObjectRef}
    (follows : Follows i x key a ⟨u, none, [], []⟩) :
    StaleEntry (fun _ => False) x key ⟨u, none, [], []⟩ := by
  intro r there
  obtain ⟨map, present, _⟩ := u.entry?_eq_some_iff.mp there
  rcases follows with past | ⟨a', mirrors, _⟩
  · exact absurd past (not_over emptied present)
  · rcases mirrors.of_entry there with ⟨_, _, bothKept⟩ | valueGone
    · exact absurd bothKept.ends (not_keptInHeap_of_emptied emptied)
    · exact Or.inr valueGone

end Emptied

theorem StaleEntry.of_refines {s : Session} {i x : Nat} {c : Collector} {A : WeakMap}
    (refines : Refines i x A s) (pinsMatch : PinsMatchRuntime ⟨s, none, [], []⟩)
    (here : s.collector? i = some c) (key : String) :
    StaleEntry (·.IsOf c.heap.runtime c.heap.pins) x key ⟨s, none, [], []⟩ := by
  intro r there
  obtain ⟨map, present, _⟩ := s.entry?_eq_some_iff.mp there
  rcases refines.mirrors with past | mirrors
  · exact absurd past (not_over here present)
  · rcases (mirrors key).of_entry there with ⟨b, _, bothKept⟩ | valueGone
    · have ofHeap := bothKept.ofHeap c here
      have pins := (pinsMatch.pairs (.entry x key) r b i c there bothKept.binding here).mpr ofHeap
      exact Or.inl ⟨b, bothKept.binding, ofHeap, pins⟩
    · exact Or.inr valueGone

section ShutDown
variable {s : Session} {i : Nat} {c : Collector} {groups : List (ObjectRef × List Finalizer)}
variable (scriptFree : ScriptFree ⟨s, none, [], []⟩) (here : s.collector? i = some c)
variable (all : groups.Perm c.heap.sideTable.pairs)
include here all

theorem Session.shutDownIn_closed : ∃ u heap,
    Moves (s.Allows (.shutDown i)) ⟨s, none, [], []⟩ ⟨u, none, [], []⟩ ∧
      u.collector? i = some { c with heap } ∧ heap.pins = c.heap.pins ∧
      (c.heap.config.teardown = .fire → heap = c.heap.emptied) ∧
      s.shutDownIn i c.heap groups =
        { u.clearPins heap.pins with collectors := u.collectors.setIfInBounds i none } :=
  shutDownIn_closes .always .ref none (.shutDown rfl) (fun x => .fall x rfl) here all

theorem Session.shutDownIn_allowed : Moves (s.Allows (.shutDown i)) ⟨s, none, [], []⟩
    ⟨s.shutDownIn i c.heap groups, none, [], []⟩ :=
  shutDownIn_moves .always .ref none (.shutDown rfl) (fun x => .fall x rfl) here all

theorem Ownership.shutDownIn (ownership : Ownership ⟨s, none, [], []⟩) :
    Ownership ⟨s.shutDownIn i c.heap groups, none, [], []⟩ :=
  (Session.shutDownIn_allowed here all).preserves (fun _ move ownership => ownership.move move)
    ownership

theorem tornDown_shutDownIn : TornDown i c.heap (s.shutDownIn i c.heap groups) := by
  have gone := (s.collector?_shutDownIn i c.heap groups i).trans (if_pos rfl)
  have guarded : s.Guarded (fun _ => False) fun _ _ => True :=
    ⟨nofun, fun _ _ _ => trivial, fun _ _ _ _ _ _ _ => trivial⟩
  refine ⟨(guarded.shutDownIn here all).dead _ (Or.inr rfl), ?_, gone, ?_⟩
  · exact Session.pinned_clearPins _ c.heap.pins
  · change (Session.shutDown _ i, _) = _
    rw [Session.shutDown, gone]

include scriptFree

theorem ScriptFree.shutDownIn : ScriptFree ⟨s.shutDownIn i c.heap groups, none, [], []⟩ :=
  scriptFree.run (Session.shutDownIn_allowed here all) fun _ => rfl

/-- A heap that is shut down is there no more, nor will it be. -/
theorem Gone.shutDownIn :
    Gone c.heap.runtime c.heap.pins (s.shutDownIn i c.heap groups) := by
  have counted := (Session.shutDownIn_allowed here all).preserves
    (I := fun m => c.heap.pins < m.session.pinSets.size ∧ c.heap.runtime.raw ≤ m.session.runtimes)
    (fun _ move both => ⟨Nat.lt_of_lt_of_le both.1 move.size_pinSets_le,
      Nat.le_trans both.2 move.runtimes_le⟩)
    ⟨scriptFree.apart.made i c here, (scriptFree.boundKept i).runtimes i c here⟩
  have others {k : Nat} {d : Collector}
      (there : (s.shutDownIn i c.heap groups).collector? k = some d) :
      k ≠ i ∧ s.collector? k = some d := by
    rw [Session.collector?_shutDownIn] at there
    split at there
    · cases there
    · rename_i other
      exact ⟨other, there⟩
  refine ⟨counted.1, counted.2, fun k d there same => ?_, fun k d there same => ?_⟩
  · obtain ⟨other, before⟩ := others there
    exact other (scriptFree.apart.apart k i d c before here same)
  · obtain ⟨other, before⟩ := others there
    exact other ((scriptFree.boundKept i).apart k i d c before here same)

end ShutDown

theorem spares_of_shutDown {s : Session} {i x : Nat} {key : String} {t : Tag}
    (allowed : s.Allows (.shutDown i) t) : t.Spares x key s ∧ t ≠ .alloc := by
  have elsewhere : (Op.shutDown i).map? ≠ some x := by
    intro same
    cases same
  have calm : ∀ j kind, Op.shutDown i ≠ .alloc j kind := by
    intro j kind same
    cases same
  exact ⟨spares_of_allows elsewhere allowed, calm_of_allows calm allowed⟩

section Firing
variable {ops : List Op} {i : Nat} {c : Collector} {groups : List (ObjectRef × List Finalizer)}
variable (plain : ∀ op ∈ ops, ∀ k, op.scripts k = false)
variable (here : (Session.after {} ops).collector? i = some c)
variable (all : groups.Perm c.heap.sideTable.pairs)
include plain here all

theorem stale_of_firing (fires : c.heap.config.teardown = .fire) {x : Nat}
    (only : ∀ op ∈ ops, op.keepsTo i x = true) (key : String) : StaleEntry (fun _ => False) x key
      ⟨(Session.after {} ops).shutDownIn i c.heap groups, none, [], []⟩ := by
  have scriptFree := ScriptFree.empty.after plain
  have refines := Refines.empty.run (i := i) (x := x) (fun op listed => plain op listed i) only
  obtain ⟨u, heap, moves, there, _, emptied, closed⟩ := Session.shutDownIn_closed here all
  rw [emptied fires] at there closed
  have follows : ∃ a, Follows i x key a ⟨u, none, [], []⟩ := by
    rcases refines.mirrors with past | mirrors
    · refine ⟨none, Or.inl ?_⟩
      exact moves.preserves (I := fun m => HeapOrMapGone i x m.session)
        (fun _ move past => past.move move) past
    · exact ⟨_, (mirrors key).start.run scriptFree.ownership moves fun _ => spares_of_shutDown⟩
  obtain ⟨a, follows⟩ := follows
  have ownership := (scriptFree.run moves fun _ => rfl).ownership
  have close := Move.close ⟨u, none, [], []⟩ there rfl
  rw [closed]
  exact (StaleEntry.of_emptied there follows).move ownership close nofun

theorem fired_shutDownIn (fires : c.heap.config.teardown = .fire) :
    Fired ops i c.heap ((Session.after {} ops).shutDownIn i c.heap groups) := by
  have scriptFree := ScriptFree.empty.after plain
  constructor
  · intro p a b held binding ofHeap
    obtain ⟨u, heap, moves, there, _, emptied, closed⟩ := Session.shutDownIn_closed here all
    rw [emptied fires] at there closed
    rw [closed] at held ⊢
    have held : u.held p = some a := (Session.held_congr rfl rfl p).symm.trans held
    exact unbound_of_emptied there ((scriptFree.run moves fun _ => rfl).boundKept i) held binding
      ofHeap
  · intro x only more idle op k d works through at_k key r
    refine Session.entry?_of_pruned (fun key => ?_) at_k works through
    have ownership := (scriptFree.shutDownIn here all).ownership
    have stale := (stale_of_firing plain here all fires only key).after ownership
      fun op listed j v same => idle op listed (same ▸ rfl)
    cases left : Session.entry? (Session.pruneMap _ x) x key with
    | none => rfl
    | some r => exact (stale.left left).elim

end Firing

section Later
variable {ops more : List Op} {i : Nat} {c : Collector} {groups : List (ObjectRef × List Finalizer)}
variable (here : (Session.after {} ops).collector? i = some c)
variable (all : groups.Perm c.heap.sideTable.pairs)
include here all

theorem knows_after_shutDownIn (x : InstanceId) (P : Nat) (more : List Op) :
    (((Session.after {} ops).shutDownIn i c.heap groups).after more).Knows i x P := by
  have ownership := Ownership.shutDownIn here all (Session.ownership_after ops)
  have inside : i < ((Session.after {} ops).shutDownIn i c.heap groups).collectors.size :=
    (Session.shutDownIn_allowed here all).preserves (I := fun m => i < m.session.collectors.size)
      (fun _ move inside => Nat.lt_of_lt_of_le inside move.evolves.size_le)
      (Session.lt_size_of_collector? _ here)
  refine Session.knows_after ownership inside (fun d there => ?_) more
  rw [(tornDown_shutDownIn here all).gone] at there
  cases there

theorem boundTo_after_shutDownIn {h : HandleId}
    (only : BoundOnly i h ops ((Session.after {} ops).shutDownIn i c.heap groups) more) :
    BoundTo h c.heap.runtime c.heap.pins
      ⟨((Session.after {} ops).shutDownIn i c.heap groups).after more, none, [], []⟩ := by
  have before : BoundTo h c.heap.runtime c.heap.pins ⟨Session.after {} ops, none, [], []⟩ :=
    BoundTo.empty.run ownership_empty (fun _ part => Session.knows_before here part) only.1
  have closed : BoundTo h c.heap.runtime c.heap.pins
      ⟨(Session.after {} ops).shutDownIn i c.heap groups, none, [], []⟩ := by
    refine (Session.shutDownIn_allowed here all).keeps (Session.ownership_after ops) ?_ before
    intro t m m' allowed ownership move boundTo
    refine boundTo.move ownership move fun j d v same => ?_
    rw [same] at allowed
    cases Session.target?_of_allows allowed
  exact closed.run (Ownership.shutDownIn here all (Session.ownership_after ops))
    (fun before _ => knows_after_shutDownIn here all _ _ before) only.2

variable (plain : ∀ op ∈ ops, ∀ k, op.scripts k = false)
include plain

theorem dead_after_shutDownIn (plain' : ∀ op ∈ more, ∀ k, op.scripts k = false)
    (dormant : .initialized c.heap.runtime ∉ more) :
    (((Session.after {} ops).shutDownIn i c.heap groups).after more).isAlive c.heap.runtime =
      false := by
  have scriptFree := ScriptFree.empty.after plain
  have gone := Gone.shutDownIn scriptFree here all
  have guarded : Session.Guarded (· = c.heap.runtime) (fun _ _ => True)
      ((Session.after {} ops).shutDownIn i c.heap groups) := by
    refine ⟨?_, fun _ _ _ => trivial, fun _ _ _ _ _ _ _ => trivial⟩
    intro x same
    rw [same]
    exact (tornDown_shutDownIn here all).dead
  refine (guarded.after (scriptFree.shutDownIn here all) plain' ?_ ?_).dead _ rfl
  · intro x same
    rw [same]
    exact gone.issued
  · intro before op part
    have listed : op ∈ more := part.subset (List.mem_append_right _ List.mem_cons_self)
    refine ⟨fun x again same => ?_, fun _ _ _ => trivial, fun _ _ _ _ _ _ _ _ => trivial,
      fun _ _ _ _ _ _ _ => trivial⟩
    rw [same] at again
    exact dormant (again ▸ listed)

theorem pins_after_shutDownIn (plain' : ∀ op ∈ more, ∀ k, op.scripts k = false) {h : HandleId}
    (only : BoundOnly i h ops ((Session.after {} ops).shutDownIn i c.heap groups) more)
    (away : ∀ op ∈ ops ++ more, op.pinsElsewhere i c.heap.pins h = false) {q : Nat}
    (pinned : h ∈ (((Session.after {} ops).shutDownIn i c.heap groups).after more).pinned q) :
    q = c.heap.pins := by
  have none_yet : Session.Guarded (fun _ => False) (fun g q => g = h → q = c.heap.pins) {} := by
    refine ⟨nofun, fun g q there => ?_, fun k d f g there => ?_⟩
    · exact absurd there (Roster.not_mem_empty g)
    · cases there
  have before := none_yet.through .empty plain (fun _ part => Session.knows_before here part) only.1
    fun op listed => away op (List.mem_append_left _ listed)
  have closed : Session.Guarded (fun _ => False) (fun g q => g = h → q = c.heap.pins)
      ((Session.after {} ops).shutDownIn i c.heap groups) :=
    (before.shutDownIn here all).of_gone fun _ => False.elim
  have scriptFree := (ScriptFree.empty.after plain).shutDownIn here all
  have knows := knows_after_shutDownIn here all c.heap.runtime c.heap.pins
  have kept := closed.through scriptFree plain' (fun before _ => knows before) only.2 fun op
    listed =>
    away op (List.mem_append_right _ listed)
  exact kept.pins h q pinned rfl

theorem stale_of_shutDown {x : Nat} (only : ∀ op ∈ ops, op.keepsTo i x = true) (key : String) :
    StaleEntry (·.IsOf c.heap.runtime c.heap.pins) x key
      ⟨(Session.after {} ops).shutDownIn i c.heap groups, none, [], []⟩ := by
  have scriptFree := ScriptFree.empty.after plain
  have refines := Refines.empty.run (i := i) (x := x) (fun op listed => plain op listed i) only
  have moves := Session.shutDownIn_allowed here all
  exact (StaleEntry.of_refines refines scriptFree.pinsMatch here key).run scriptFree.ownership moves
    fun _ allowed => (spares_of_shutDown allowed).1.arrive

theorem outlived_shutDownIn (plain' : ∀ op ∈ more, ∀ k, op.scripts k = false)
    (dormant : .initialized c.heap.runtime ∉ more) :
    Outlived ops i c.heap ((Session.after {} ops).shutDownIn i c.heap groups) more := by
  have ordered := ScriptFree.empty.after plain
  have scriptFree := ordered.shutDownIn here all
  have gone := Gone.shutDownIn ordered here all
  have dead := dead_after_shutDownIn here all plain plain' dormant
  have apart := (gone.after scriptFree.ownership more).pins
  refine ⟨dead, apart, ?object, ?get, ?release, ?dropRef, ?dropMap⟩
  case object =>
    intro r a there only k
    exact (boundTo_after_shutDownIn here all only).perform_object there dead k
  case get =>
    intro x key only kept k
    have endsOrKept (k : Nat) (key : String) : EndsOrBothKept k x key
        ⟨((Session.after {} ops).shutDownIn i c.heap groups).after more, none, [], []⟩ :=
      (EndsOrBothKept.of_stale (stale_of_shutDown here all plain only key) gone).after scriptFree
        plain'
    have stale := (stale_of_shutDown here all plain only key).after scriptFree.ownership
      fun op listed j v same => kept j v (same ▸ listed)
    exact stale.perform_mapGet dead (scriptFree.after plain').pinsMatch endsOrKept k
  case release =>
    intro r a there only away k q
    have pins {q : Nat} := pins_after_shutDownIn here all plain plain' only away (q := q)
    generalize Session.after (Session.shutDownIn _ i c.heap groups) more = t at there apart pins
    change Session.pinned (((t.pinsOf k).map fun roots => t.releaseRef roots r).getD t) q = _
    cases at_k : t.pinsOf k with
    | none => rfl
    | some roots =>
      obtain ⟨d, here, same⟩ := Option.map_eq_some_iff.mp at_k
      refine Session.pinned_releaseRef_of fun a' there' pinned => apart k d here ?_
      rw [there] at there'
      cases there'
      rw [same]
      exact pins pinned
  case dropRef =>
    intro r a there only q other
    exact (boundTo_after_shutDownIn here all only).pinned_dropRef there other
  case dropMap =>
    intro x only kept q other
    refine Session.ClearOf.pinned_dropMap fun key r there => ?_
    have stale := (stale_of_shutDown here all plain only key).after scriptFree.ownership
      fun op listed j v same => kept j key v (same ▸ listed)
    exact stale.clearOf there other

end Later

theorem dropped_shutDownIn {s : Session} {i : Nat} {h : Heap Finalizer}
    {groups : List (ObjectRef × List Finalizer)} (drops : h.config.teardown = .drop) :
    Dropped s (s.shutDownIn i h groups) := by
  have same : (s.recordTornDown h.runtime).cells = s.cells ∧
      (s.recordTornDown h.runtime).refs = s.refs ∧ (s.recordTornDown h.runtime).maps = s.maps := by
    unfold Session.recordTornDown
    split <;> exact ⟨rfl, rfl, rfl⟩
  obtain ⟨cells, refs, maps⟩ := same
  have cell (d : Nat) : (s.shutDownIn i h groups).cell d = s.cell d := by
    unfold Session.shutDownIn Session.cell
    dsimp only
    rw [drops]
    exact congrArg (Array.getD · d _) cells
  refine ⟨?_, fun p => ?_, cell, fun a => Session.isBound_congr fun d _ => cell d⟩
  · rw [Session.runs_shutDownIn, drops]
  · unfold Session.shutDownIn
    dsimp only
    rw [drops]
    exact Session.held_congr refs maps p

/-- A shutdown is complete, in whatever order the side table is drained: the heap is torn down, its
policy is carried out, and references and maps that were used with it only are inert. -/
theorem shutDown_is_complete {ops : List Op} {i : Nat} {c : Collector}
    {groups : List (ObjectRef × List Finalizer)} {s : Session}
    (plain : ∀ op ∈ ops, ∀ k, op.scripts k = false)
    (here : (Session.after {} ops).collector? i = some c)
    (all : groups.Perm c.heap.sideTable.pairs)
    (closed : s = (Session.after {} ops).shutDownIn i c.heap groups) :
    TornDown i c.heap s ∧
    (c.heap.config.teardown = .fire → Fired ops i c.heap s) ∧
    (c.heap.config.teardown = .drop → Dropped (Session.after {} ops) s) ∧
    ∀ more, (∀ op ∈ more, ∀ k, op.scripts k = false) → .initialized c.heap.runtime ∉ more →
      Outlived ops i c.heap s more := by
  subst closed
  exact ⟨tornDown_shutDownIn here all, fired_shutDownIn plain here all, dropped_shutDownIn,
    fun _ plain' dormant => outlived_shutDownIn here all plain plain' dormant⟩

/-- A heap goes with a reference, a map entry and a finalizer that pins a handle meanwhile. -/
theorem shutDown_of_pinning_heap : ∃ ops more c s,
    ops = [.newHeap {}, .newHeap {}, .alloc 0 .plain, .newRefTo 0 ⟨0, 0⟩, .newMap,
      .mapInsert 0 0 "key" ⟨0, 0⟩, .define 0 ⟨0, 0⟩ "late" [.pin ⟨1⟩]] ∧
    more = [.alloc 1 .plain, .mapInsert 1 0 "new" ⟨0, 0⟩] ∧
    (Session.after {} ops).collector? 0 = some c ∧
    (Session.after {} ops).perform (.shutDown 0) = (s, .done) ∧ s.runs.size = 4 ∧
    TornDown 0 c.heap s ∧ Fired ops 0 c.heap s ∧ Outlived ops 0 c.heap s more ∧
    ((s.after more).perform (.mapGet 1 0 "key")).2 = .object none ∧
    ((s.after more).perform (.mapGet 1 0 "new")).2 = .object (some ⟨0, 0⟩) := by
  obtain ⟨ops, run⟩ : ∃ ops : List Op, ops = [.newHeap {}, .newHeap {}, .alloc 0 .plain,
    .newRefTo 0 ⟨0, 0⟩, .newMap, .mapInsert 0 0 "key" ⟨0, 0⟩,
    .define 0 ⟨0, 0⟩ "late" [.pin ⟨1⟩]] := ⟨_, rfl⟩
  obtain ⟨more, next⟩ : ∃ more : List Op,
    more = [.alloc 1 .plain, .mapInsert 1 0 "new" ⟨0, 0⟩] := ⟨_, rfl⟩
  have plain : ∀ op ∈ ops, ∀ k, op.scripts k = false := by simp [run, Op.scripts]
  have plain' : ∀ op ∈ more, ∀ k, op.scripts k = false := by simp [next, Op.scripts]
  have present : ((Session.after {} ops).collector? 0).any (fun c =>
      c.heap.config.teardown = .fire) = true := by
    rw [run]
    decide +kernel
  obtain ⟨c, here, fires⟩ := (Option.any_eq_true _ _).mp present
  obtain ⟨tornDown, fired, _, later⟩ := shutDown_is_complete plain here (List.mergeSort_perm _ _)
    (Session.shutDown_eq here)
  have outlived := later more plain' (by simp [next])
  have only : ∀ op ∈ ops, op.keepsTo 0 0 = true := by
    rw [run]
    decide
  have kept : ∀ j v, .mapInsert j 0 "key" v ∉ more := by simp [next]
  refine ⟨ops, more, c, _, run, next, here, rfl, ?_, tornDown,
    fired (of_decide_eq_true fires), outlived, (outlived.get 0 "key" only kept 1).1, ?_⟩
  · rw [run]
    decide +kernel
  · rw [run, next]
    decide +kernel

end WeakRefs
