import Mathlib.Data.List.Induction
import WeakRefs.Proofs.KeptFinalizers

/-!
# Targets of bindings

A reference that is bound through a heap without a script is bound to a live object, and its
finalizer is kept on that object. The object is the one that was bound, although names are used
again.
-/

namespace WeakRefs

/-- Whether a finalizer closes over a cell. -/
def Finalizer.closesOver (cell : Nat) : Finalizer → Bool
  | endBinding c _ => c = cell
  | _ => false

/-- The finalizer of a binding through heap `i` is kept on the target, or runs next. -/
structure BoundKept (i : Nat) (m : Moment) : Prop where
  ownership : Ownership m
  apart : ∀ j k c d, m.session.collector? j = some c → m.session.collector? k = some d →
    c.heap.runtime = d.heap.runtime → j = k
  runtimes : ∀ j c, m.session.collector? j = some c → c.heap.runtime.raw ≤ m.session.runtimes
  issued : ∀ p a b, m.held p = some a → a.binding = some b → b.runtime.raw ≤ m.session.runtimes
  plain : ∀ c, m.session.collector? i = some c → c.IsPlain
  keptOnce : ∀ c p a b x, m.session.collector? i = some c → m.held p = some a →
    a.binding = some b → b.runtime = c.heap.runtime → m.session.cell b.cell = .bound x →
    KeptInHeap i (.endBinding b.cell a.id) b.affiliation.kind x m ∨ .endBinding b.cell a.id ∈
      m.flight

namespace BoundKept
variable {i : Nat} {m m' : Moment} {t : Tag}

/-- A collector was there before, of the same runtime, or it is new and plain, of a new runtime. -/
theorem descends (move : Move t m m') {j : Nat} {c' : Collector}
    (there : m'.session.collector? j = some c') :
    (∃ c, m.session.collector? j = some c ∧ c'.heap.runtime = c.heap.runtime ∧
        (t ≠ .script j → c.IsPlain → c'.IsPlain)) ∨
      (t = .newHeap ∧ j = m.session.collectors.size ∧ c'.IsPlain ∧
        c'.heap.runtime.raw = m.session.runtimes + 1) := by
  rcases move.evolves.descends there with ⟨c, here, becomes⟩ | ⟨tag, last, config, new⟩
  · exact Or.inl ⟨c, here, becomes.runtime, becomes.plain⟩
  · rw [new]
    exact Or.inr ⟨tag, last, ⟨rfl, rfl, rfl⟩, rfl⟩

theorem attach (boundKept : BoundKept i m) {h : HandleId} {x : ObjectRef}
    (move : Move (.bind i h x) m m') {p : Place} {a : WeakReference} {b : Binding}
    (held : m'.held p = some a) (binding : a.binding = some b)
    (new : b.cell = m.session.cells.size) {y : ObjectRef}
    (bound : m'.session.cell b.cell = .bound y) :
    KeptInHeap i (.endBinding b.cell a.id) b.affiliation.kind y m' := by
  obtain ⟨q, ref, d, c, c', ran, _, attaches⟩ := move.attaches
  have plain := boundKept.plain c attaches.here
  rcases attaches.held_cases held with ⟨_, its⟩ | ⟨_, before⟩
  · subst its
    cases binding
    have nowhere : ¬ m.Awaits (.endBinding b.cell ref.id) := by
      intro waits
      exact absurd new (Nat.ne_of_lt (boundKept.ownership.waits b.cell ref.id waits).1)
    rw [attaches.cell, if_pos rfl] at bound
    rcases plain.receives attaches.received with ⟨waits, heap, became, kept⟩ | ⟨runs, _, _⟩
    · subst waits became
      cases bound
      refine .of_kept attaches.here kept nowhere attaches.same.collectors ?_
      rw [attaches.same.flight, attaches.calm]
      exact List.not_mem_nil
    · subst runs
      cases bound
  · have old : b.cell < m.session.cells.size :=
      boundKept.ownership.inside p a b.cell before (WeakReference.cell?_of_binding binding)
    exact absurd new (Nat.ne_of_lt old)

theorem move (boundKept : BoundKept i m) (move : Move t m m') (calm : t ≠ .script i) :
    BoundKept i m' where
  ownership := boundKept.ownership.move move
  apart j k c d at_j at_k same := by
    rcases descends move at_j with ⟨c', here, runtime, _⟩ | ⟨_, last, _, runtime⟩
    · rcases descends move at_k with ⟨d', here', runtime', _⟩ | ⟨_, _, _, runtime'⟩
      · exact boundKept.apart j k c' d' here here' (runtime.symm.trans (same.trans runtime'))
      · have known := boundKept.runtimes j c' here
        rw [← runtime, same, runtime'] at known
        omega
    · rcases descends move at_k with ⟨d', here', runtime', _⟩ | ⟨_, last', _, _⟩
      · have known := boundKept.runtimes k d' here'
        rw [← runtime', ← same, runtime] at known
        omega
      · exact last.trans last'.symm
  runtimes j c there := by
    have counted := move.runtimes_le
    rcases descends move there with ⟨c', here, runtime, _⟩ | ⟨new, _, _, runtime⟩
    · have known := boundKept.runtimes j c' here
      rw [runtime]
      omega
    · subst new
      have counted := move.runtimes_newHeap
      omega
  issued p a b held binding := by
    have counted := move.runtimes_le
    rcases move.binding_cases boundKept.ownership held binding with
      ⟨q, before⟩ | ⟨j, c, x, _, here, _, runtime, _⟩
    · have known := boundKept.issued q a b before binding
      omega
    · have known := boundKept.runtimes j c here
      rw [runtime]
      omega
  plain c there := by
    rcases descends move there with ⟨c', here, _, plain⟩ | ⟨_, _, plain, _⟩
    · exact plain calm (boundKept.plain c' here)
    · exact plain
  keptOnce c p a b x there held binding ofHeap bound := by
    have ownership := boundKept.ownership
    have mine : a.cell? = some b.cell := WeakReference.cell?_of_binding binding
    rcases move.binding_cases ownership held binding with
      ⟨q, before⟩ | ⟨j, d, y, tag, here, new, runtime, _⟩
    · have inside := ownership.inside q a b.cell before mine
      have was := move.bound_of_old ownership inside bound
      rcases descends move there with ⟨c', here, runtime, _⟩ | ⟨_, _, _, runtime⟩
      · rcases boundKept.keptOnce c' q a b x here before binding (ofHeap.trans runtime) was with
          inHeap | flies
        · have becomes := move.inHeap ownership.heaps inHeap (move.calm _ _) (by
            intro h same
            exact absurd (Finalizer.endBinding.inj same).1 (Nat.ne_of_lt inside))
          rcases becomes with inHeap | ⟨flies, _⟩ | gone
          · exact Or.inl inHeap
          · exact Or.inr flies
          · rw [gone] at there
            cases there
        · rcases move.flies flies with flies | done
          · exact Or.inr flies
          · have done : (m'.session.cell b.cell).isBound = false := done
            rw [bound] at done
            cases done
      · have known := boundKept.issued q a b before binding
        rw [ofHeap, runtime] at known
        omega
    · rcases descends move there with ⟨c', here', runtime', _⟩ | ⟨new_heap, _⟩
      · have same : j = i := by
          apply boundKept.apart j i d c' here here'
          rw [← runtime, ofHeap, runtime']
        subst same
        subst tag
        exact Or.inl (boundKept.attach move held binding new bound)
      · rw [new_heap] at tag
        cases tag

theorem run {T : Tag → Prop} (boundKept : BoundKept i m) (moves : Moves T m m')
    (calm : ∀ t, T t → t ≠ .script i) : BoundKept i m' :=
  moves.preserves (fun allowed move boundKept => boundKept.move move (calm _ allowed)) boundKept

theorem empty : BoundKept i ⟨{}, none, [], []⟩ := by
  have nothing (j : Nat) : Session.collector? {} j = none := by
    simp [Session.collector?]
  constructor
  · exact ownership_empty
  · intro j k c d here
    rw [nothing] at here
    cases here
  · intro j c here
    rw [nothing] at here
    cases here
  · intro p a b held
    rw [Moment.held_empty] at held
    cases held
  · intro c here
    rw [nothing] at here
    cases here
  · intro c p a b x here
    rw [nothing] at here
    cases here

end BoundKept

namespace Session
variable {s : Session} {i : Nat} {ops : List Op}

/-- An operation that does not script a heap makes no move that does. -/
theorem unscripted_of_allows {op : Op} (plain : op.scripts i = false) {t : Tag}
    (allowed : s.Allows op t) : t ≠ .script i := by
  intro same
  rw [same] at allowed
  cases allowed with
  | script scripts =>
    rw [plain] at scripts
    cases scripts

theorem boundKept_perform (boundKept : BoundKept i ⟨s, none, [], []⟩) {op : Op}
    (plain : op.scripts i = false) : BoundKept i ⟨(s.perform op).1, none, [], []⟩ :=
  boundKept.run (perform_moves_of_ownership boundKept.ownership op) fun _ =>
    unscripted_of_allows plain

theorem boundKept_run (boundKept : BoundKept i ⟨s, none, [], []⟩)
    (plain : ∀ op ∈ ops, op.scripts i = false) : BoundKept i ⟨s.after ops, none, [], []⟩ := by
  refine after_keeps boundKept.ownership (fun op listed _ _ _ _ allowed _ move boundKept => ?_)
    boundKept
  exact boundKept.move move (unscripted_of_allows (plain op listed) allowed)

theorem boundKept_after (plain : ∀ op ∈ ops, op.scripts i = false) :
    BoundKept i ⟨Session.after {} ops, none, [], []⟩ := boundKept_run .empty plain

section Binding
variable {c : Collector} {p : Place} {ref : WeakReference} {b : Binding} {x : ObjectRef}
variable (boundKept : BoundKept i ⟨s, none, [], []⟩) (here : s.collector? i = some c)
variable (held : s.held p = some ref) (binding : ref.binding = some b)
variable (ofHeap : b.runtime = c.heap.runtime) (bound : s.cell b.cell = .bound x)
include boundKept here held binding ofHeap bound

/-- Between operations no finalizer runs next, so those of bindings are kept on their targets. -/
theorem keptInHeap_of_bound : c.KeepsOnce (.endBinding b.cell ref.id) b.affiliation.kind x := by
  have held : Moment.held ⟨s, none, [], []⟩ p = some ref := (Moment.held_atRest s p).trans held
  rcases boundKept.keptOnce c p ref b x here held binding ofHeap bound with inHeap | flies
  · obtain ⟨d, there, keptOnce⟩ := inHeap.keptBy
    have there : s.collector? i = some d := there
    rw [here] at there
    cases there
    exact keptOnce
  · cases flies

theorem countP_closesOver :
    (c.heap.pendingOf x).countP (Finalizer.closesOver b.cell) = 1 := by
  have keptOnce := keptInHeap_of_bound boundKept here held binding ofHeap bound
  have held : Moment.held ⟨s, none, [], []⟩ p = some ref := (Moment.held_atRest s p).trans held
  have mine : ref.cell? = some b.cell := WeakReference.cell?_of_binding binding
  have same : (c.heap.pendingOf x).countP (Finalizer.closesOver b.cell) =
      (c.heap.pendingOf x).count (.endBinding b.cell ref.id) := by
    apply List.countP_congr
    intro f kept
    cases f with
    | endBinding cell handle =>
      simp only [Finalizer.closesOver, decide_eq_true_eq, beq_iff_eq, Finalizer.endBinding.injEq]
      constructor
      · intro closes
        subst closes
        have waits : Moment.Awaits ⟨s, none, [], []⟩ (.endBinding b.cell handle) :=
          Or.inl ⟨i, c, here, Or.inr ⟨x, kept⟩⟩
        exact ⟨rfl, ((boundKept.ownership.waits b.cell handle waits).2 p ref held mine).symm⟩
      · exact And.left
    | report map key handle => simp [Finalizer.closesOver]
    | user label actions => simp [Finalizer.closesOver]
  rw [same]
  exact keptOnce.once

end Binding

/-- Whether heap `i` is there, and the object with it. -/
def isLiveIn (s : Session) (i : Nat) (x : ObjectRef) : Bool :=
  (s.collector? i).any fun c => c.heap.isLive x

/-- An object of heap `i` is there all through a run, and no allocation takes its name. -/
def Remains (s : Session) (i : Nat) (x : ObjectRef) : List Op → Prop
  | [] => s.isLiveIn i x = true
  | op :: rest => s.isLiveIn i x = true ∧
      (∀ kind, op = .alloc i kind → (s.perform op).2 ≠ .object (some x)) ∧
      (s.perform op).1.Remains i x rest

theorem isLiveIn_iff {x : ObjectRef} :
    s.isLiveIn i x = true ↔ ∃ c, s.collector? i = some c ∧ c.heap.isLive x = true := by
  unfold isLiveIn
  cases s.collector? i <;> simp

theorem alloc_of_live (ownership : Ownership ⟨s, none, [], []⟩) {x : ObjectRef}
    (live : s.isLiveIn i x = true) (kind : ObjectKind) :
    (s.perform (.alloc i kind)).2 ≠ .object (some x) := by
  obtain ⟨c, here, live⟩ := isLiveIn_iff.mp live
  intro answer
  cases made : (s.alloc i kind).2 with
  | error e =>
    have refused : (s.perform (.alloc i kind)).2 = .failed e := by
      unfold perform
      dsimp only
      rw [made]
    rw [refused] at answer
    cases answer
  | ok r =>
    have given : (s.perform (.alloc i kind)).2 = .object (some r) := by
      unfold perform
      dsimp only
      rw [made]
    rw [given] at answer
    cases answer
    unfold alloc at made
    rw [here] at made
    dsimp only at made
    split at made
    · rename_i allocated
      cases made
      rw [Heap.isLive, Heap.alloc_dead (ownership.heaps i c here) allocated] at live
      cases live
    · cases made

theorem Remains.snoc {x : ObjectRef} (ownership : Ownership ⟨s, none, [], []⟩)
    (remains : s.Remains i x ops) (op : Op)
    (live : ((s.after ops).perform op).1.isLiveIn i x = true) : s.Remains i x (ops ++ [op]) := by
  induction ops generalizing s with
  | nil =>
    refine ⟨remains, ?_, live⟩
    intro kind same
    rw [same]
    exact alloc_of_live ownership remains kind
  | cons first rest ih =>
    obtain ⟨now, kept, later⟩ := remains
    exact ⟨now, kept, ih (ownership_perform ownership first) later live⟩

theorem collector?_before (ownership : Ownership ⟨s, none, [], []⟩) (op : Op) {c' : Collector}
    (there : (s.perform op).1.collector? i = some c') :
    (∃ c, s.collector? i = some c ∧ c'.heap.runtime = c.heap.runtime) ∨
      s.runtimes < c'.heap.runtime.raw := by
  have both : s.runtimes ≤ (s.perform op).1.runtimes ∧
      ∀ c', (s.perform op).1.collector? i = some c' →
        (∃ c, s.collector? i = some c ∧ c'.heap.runtime = c.heap.runtime) ∨
          s.runtimes < c'.heap.runtime.raw := by
    refine (perform_moves_of_ownership ownership op).preserves (I := fun m =>
      s.runtimes ≤ m.session.runtimes ∧ ∀ c', m.session.collector? i = some c' →
        (∃ c, s.collector? i = some c ∧ c'.heap.runtime = c.heap.runtime) ∨
          s.runtimes < c'.heap.runtime.raw) ?_ ⟨Nat.le_refl _, fun c here => Or.inl ⟨c, here, rfl⟩⟩
    intro t m m' _ move both
    refine ⟨Nat.le_trans both.1 move.runtimes_le, ?_⟩
    intro c' there
    rcases BoundKept.descends move there with ⟨c, here, runtime, _⟩ | ⟨_, _, _, runtime⟩
    · rw [runtime]
      exact both.2 c here
    · have counted := both.1
      omega
  exact both.2 c' there

theorem remains_of_bound (plain : ∀ op ∈ ops, op.scripts i = false) {c : Collector}
    (here : (Session.after {} ops).collector? i = some c) {p : Place} {ref : WeakReference}
    (held : (Session.after {} ops).held p = some ref) {b : Binding} (binding : ref.binding = some b)
    (ofHeap : b.runtime = c.heap.runtime) {x : ObjectRef}
    (bound : (Session.after {} ops).cell b.cell = .bound x) :
    ∃ before op later, ops = before ++ op :: later ∧
      (Session.after {} before).binds? op ref.id = some x ∧
      (Session.after {} (before ++ [op])).Remains i x later := by
  induction ops using List.reverseRecOn generalizing c p with
  | nil => cases p <;> simp [Session.held, ref?, entry?, map?] at held
  | append_singleton ops op ih =>
    have earlier : ∀ op ∈ ops, op.scripts i = false :=
      fun op listed => plain op (List.mem_append_left _ listed)
    have boundKept := boundKept_after (i := i) plain
    have ownership := ownership_after ops
    have keptOnce := keptInHeap_of_bound boundKept here held binding ofHeap bound
    have live : (Session.after {} (ops ++ [op])).isLiveIn i x = true := by
      refine isLiveIn_iff.mpr ⟨c, here, ?_⟩
      have kind := keptOnce.live
      unfold Heap.kind? at kind
      unfold Heap.isLive
      obtain ⟨o, found, _⟩ := Option.map_eq_some_iff.mp kind
      rw [found]
      rfl
    have mine : ref.cell? = some b.cell := WeakReference.cell?_of_binding binding
    have target := (target?_eq_some_iff _ _).mpr ⟨b.cell, mine, bound⟩
    have step : Session.after {} (ops ++ [op]) = ((Session.after {} ops).perform op).1 :=
      after_append _ _ _
    rw [step] at live target held here
    rcases origin ownership op held target with ⟨q, before, was⟩ | now
    · obtain ⟨d, its, bound_before⟩ := (target?_eq_some_iff _ _).mp was
      rw [mine] at its
      cases its
      have issued := (boundKept_after (i := i) earlier).issued q ref b
        ((Moment.held_atRest _ q).trans before) binding
      rcases collector?_before ownership op here with ⟨c₀, here₀, runtime⟩ | new
      · obtain ⟨first, bind, later, whole, binds, remains⟩ :=
          ih earlier here₀ before (ofHeap.trans runtime) bound_before
        refine ⟨first, bind, later ++ [op], ?_, binds, ?_⟩
        · rw [whole, List.append_assoc]
          rfl
        · refine Remains.snoc (ownership_after _) remains op ?_
          have joined : (Session.after {} (first ++ [bind])).after later =
            Session.after {} ops := by
            rw [← after_append, whole, List.append_assoc]
            rfl
          rw [joined]
          exact live
      · have issued : b.runtime.raw ≤ (Session.after {} ops).runtimes := issued
        rw [ofHeap] at issued
        omega
    · refine ⟨ops, op, [], rfl, now, ?_⟩
      rw [step]
      exact live

theorem read_of_bound {c : Collector} (here : s.collector? i = some c) {ref : WeakReference}
    {b : Binding} (binding : ref.binding = some b) {x : ObjectRef}
    (bound : s.cell b.cell = .bound x) :
    s.read i ref = if c.isReachable x then (s, some x) else
      ((s.clearDead c.heap.pins b.cell ref.id).emit (.clearedOnRead ref.id), none) := by
  unfold read
  rw [here, binding]
  dsimp only
  rw [bound]
  rfl

/-- What a read answers is bound, and reachable. -/
theorem isReachable_of_read {c : Collector} (here : s.collector? i = some c) {ref : WeakReference}
    {x : ObjectRef} (answer : (s.read i ref).2 = some x) :
    s.target? ref = some x ∧ c.isReachable x = true := by
  unfold read at answer
  rw [here] at answer
  cases binding : ref.binding with
  | none =>
    rw [binding] at answer
    cases answer
  | some b =>
    rw [binding] at answer
    dsimp only at answer
    split at answer
    · cases answer
    · rename_i target state
      split at answer
      · rename_i reachable
        cases answer
        exact ⟨(s.target?_of_binding binding).trans state, reachable⟩
      · cases answer

/-- A read that finds something touches nothing. -/
theorem read_of_found {ref : WeakReference} {x : ObjectRef} (found : (s.read i ref).2 = some x) :
    (s.read i ref).1 = s := by
  revert found
  unfold read
  split
  · split
    · exact nofun
    · split
      · exact fun _ => rfl
      · exact nofun
  · exact nofun

/-- A read answers the target of the binding in force, if that is reachable. -/
theorem answer_read {c : Collector} (here : s.collector? i = some c) (ref : WeakReference) :
    (s.read i ref).2 = (s.target? ref).filter c.isReachable := by
  unfold read target?
  rw [here]
  cases ref.binding with
  | none => rfl
  | some b =>
    dsimp only [Option.bind_some]
    cases (s.cell b.cell).get? with
    | none => rfl
    | some x =>
      dsimp only
      rw [Option.filter_some]
      split <;> rfl

theorem read_of_unbound {ref : WeakReference} (unbound : s.isBound ref = false) :
    s.read i ref = (s, none) := by
  unfold read
  split
  · rename_i c b here binding
    have free : (s.cell b.cell).get? = none := by
      unfold isBound at unbound
      rw [binding] at unbound
      exact Option.isSome_eq_false_iff.mp unbound |> Option.isNone_iff_eq_none.mp
    rw [free]
  · rfl

theorem read_of_direct (boundKept : BoundKept i ⟨s, none, [], []⟩) {c : Collector}
    (here : s.collector? i = some c) {p : Place} {ref : WeakReference}
    (held : s.held p = some ref) {b : Binding} (binding : ref.binding = some b)
    (ofHeap : b.runtime = c.heap.runtime) {x : ObjectRef} (bound : s.cell b.cell = .bound x)
    (direct : b.affiliation = .direct) :
    c.isReachable x = true ∧ s.read i ref = (s, some x) := by
  have keptOnce := keptInHeap_of_bound boundKept here held binding ofHeap bound
  have kind := keptOnce.live
  rw [direct] at kind
  obtain ⟨o, live, emittable⟩ := Option.map_eq_some_iff.mp kind
  have rooted := (boundKept.ownership.heaps i c here).rooted x o live emittable
  have reachable : c.isReachable x = true := by
    rw [(boundKept.plain c here).isReachable, Heap.isReachable, live]
    exact decide_eq_true rooted
  exact ⟨reachable, (read_of_bound here binding bound).trans (if_pos reachable)⟩

end Session

def AllThrough (i : Nat) (m : Moment) : Prop :=
  ∀ p a b, m.held p = some a → a.binding = some b → i < m.session.collectors.size ∧
    ∀ c, m.session.collector? i = some c → b.runtime = c.heap.runtime

namespace AllThrough
variable {i : Nat} {m m' : Moment} {t : Tag}

theorem empty : AllThrough i ⟨{}, none, [], []⟩ := fun p _ _ there =>
  nomatch (Moment.held_empty p).symm.trans there

theorem move (ofHeap : AllThrough i m) (ownership : Ownership m) (move : Move t m m')
    (only : ∀ j h x, t = .bind j h x → j = i) : AllThrough i m' := by
  intro p a b held binding
  have grown := move.evolves.size_le
  rcases move.binding_cases ownership held binding with
    ⟨q, before⟩ | ⟨j, d, x, tag, here, _, runtime, _⟩
  · obtain ⟨inside, same⟩ := ofHeap q a b before binding
    refine ⟨Nat.lt_of_lt_of_le inside grown, ?_⟩
    intro c there
    rcases BoundKept.descends move there with ⟨c', here, runtime, _⟩ | ⟨_, last, _, _⟩
    · exact (same c' here).trans runtime.symm
    · omega
  · have this_one := only j a.id x tag
    subst this_one
    have inside := m.session.lt_size_of_collector? here
    refine ⟨Nat.lt_of_lt_of_le inside grown, ?_⟩
    intro c there
    rcases BoundKept.descends move there with ⟨c', here', runtime', _⟩ | ⟨_, last, _, _⟩
    · rw [here] at here'
      cases here'
      exact runtime.trans runtime'.symm
    · omega

theorem run {s : Session} (ofHeap : AllThrough i ⟨s, none, [], []⟩)
    (ownership : Ownership ⟨s, none, [], []⟩)
    {ops : List Op} (only : ∀ op ∈ ops, op.bindsThrough i = true) :
    AllThrough i ⟨s.after ops, none, [], []⟩ := by
  refine Session.after_keeps ownership (fun op listed _ _ _ _ allowed ownership move ofHeap => ?_)
    ofHeap
  refine ofHeap.move ownership move ?_
  intro j h x same
  rw [same] at allowed
  have through := only op listed
  unfold Op.bindsThrough at through
  rw [Session.target?_of_allows allowed] at through
  exact of_decide_eq_true through

end AllThrough

/-- While a heap without a script is there, whoever is bound is bound to a live object, the one of
its last bind, and one finalizer of it closes over the cell. -/
theorem bound_target_is_live {ops : List Op} {i : Nat} (plain : ∀ op ∈ ops, op.scripts i = false)
    (only : ∀ op ∈ ops, op.bindsThrough i = true) {c : Collector}
    (here : (Session.after {} ops).collector? i = some c) {p : Place} {ref : WeakReference}
    (held : (Session.after {} ops).held p = some ref) {x : ObjectRef}
    (target : (Session.after {} ops).target? ref = some x) :
    ∃ b, ref.binding = some b ∧ c.heap.isLive x = true ∧
      (∃ before op later, ops = before ++ op :: later ∧
        (Session.after {} before).binds? op ref.id = some x ∧
        (Session.after {} (before ++ [op])).Remains i x later) ∧
      (b.affiliation = .direct ↔ c.heap.kind? x = some .emittable) ∧
      (b.affiliation = .indirect ↔ c.heap.kind? x = some .plain) ∧
      (c.heap.pendingOf x).countP (Finalizer.closesOver b.cell) = 1 ∧
      (b.affiliation = .direct → c.isReachable x = true ∧
        (Session.after {} ops).read i ref = (Session.after {} ops, some x)) := by
  obtain ⟨d, mine, bound⟩ := (Session.target?_eq_some_iff _ _).mp target
  obtain ⟨b, binding, same⟩ := WeakReference.cell?_eq_some_iff.mp mine
  subst same
  have boundKept := Session.boundKept_after plain
  have start : AllThrough i ⟨{}, none, [], []⟩ := by
    intro p a b there
    cases p <;> simp [Moment.held, Session.ref?, Session.entry?, Session.map?] at there
  have ofHeap := ((start.run ownership_empty only) p ref b ((Moment.held_atRest _ p).trans held)
    binding).2 c here
  have keptOnce := Session.keptInHeap_of_bound boundKept here held binding ofHeap bound
  have kind := keptOnce.live
  refine ⟨b, binding, ?_, ?_, ?_, ?_, ?_, ?_⟩
  · obtain ⟨o, live, _⟩ := Option.map_eq_some_iff.mp kind
    rw [Heap.isLive, live]
    rfl
  · exact Session.remains_of_bound plain here held binding ofHeap bound
  · rw [kind]
    cases b.affiliation <;> simp [Affiliation.kind]
  · rw [kind]
    cases b.affiliation <;> simp [Affiliation.kind]
  · exact Session.countP_closesOver boundKept here held binding ofHeap bound
  · exact Session.read_of_direct boundKept here held binding ofHeap bound

/-- An entry of a map on an emittable object, after a collection. -/
theorem bound_entry_is_live :
    let ops : List Op := [.newHeap {}, .alloc 0 .plain, .alloc 0 .emittable, .newMap,
      .mapInsert 0 0 "key" ⟨1, 0⟩, .release 0 ⟨0, 0⟩, .collect 0]
    ∃ c ref b, (Session.after {} ops).collector? 0 = some c ∧
      (Session.after {} ops).held (.entry 0 "key") = some ref ∧ ref.binding = some b ∧
      c.heap.isLive ⟨1, 0⟩ = true ∧ (c.heap.pendingOf ⟨1, 0⟩).countP (Finalizer.closesOver b.cell) =
        1 := by
  intro ops
  have there : ((Session.after {} ops).collector? 0).isSome := by decide +kernel
  obtain ⟨c, here⟩ := Option.isSome_iff_exists.mp there
  have held : (Session.after {} ops).held (.entry 0 "key") =
      some ⟨⟨1⟩, some ⟨0, .direct, ⟨1⟩, 0⟩⟩ := by decide +kernel
  obtain ⟨b, binding, live, _, _, _, once, _⟩ := bound_target_is_live (i := 0) (x := ⟨1, 0⟩)
    (by decide) (by decide) here held (by decide +kernel)
  exact ⟨c, _, b, here, held, binding, live, once⟩

end WeakRefs
