import WeakRefs.Proofs.Callback
import WeakRefs.Proofs.Retrieval

/-!
# Callbacks through a reference

To define a callback on the target of a reference is to look for the target, which may collect, and
to define on what was found. Where nothing is found, the callback is not even mentioned.
-/

namespace WeakRefs

namespace Session
variable {s : Session} {focus : Focus} {i : Nat} {c : Collector} {r : WeakReference} {t : ObjectRef}

theorem object_found (found : (s.object focus i r).2 = some t) {c' : Collector}
    (there : (s.object focus i r).1.collector? i = some c') :
    (s.object focus i r).1.target? r = some t ∧ c'.isReachable t = true := by
  revert found there
  unfold object
  split
  · exact nofun
  · split
    · intro found
      rw [read_of_found found]
      exact fun there => isReachable_of_read there found
    · exact nofun

theorem collector?_collect_idle (focus : Focus) (j : Nat) :
    (s.collect focus i).1.collector? j = (s.collect .idle i).1.collector? j := by
  cases here : s.collector? i with
  | none =>
    unfold collect
    rw [here]
  | some c =>
    by_cases same : j = i
    · rw [same, collector?_collect here, collector?_collect here]
    · obtain ⟨_, served⟩ := collect_heapSteps (s := s) (i := i) focus
      obtain ⟨_, served'⟩ := collect_heapSteps (s := s) (i := i) .idle
      rw [served.elsewhere same, served'.elsewhere same]

theorem collector?_object (alive : ∀ y, r.runtime? = some y → s.isAlive y = true) (focus : Focus)
    (j : Nat) : (s.object focus i r).1.collector? j =
      if r.isIndirect then (s.perform (.collect i)).1.collector? j else s.collector? j := by
  have refreshed : (s.refresh focus i r).collector? j =
      if r.isIndirect then (s.perform (.collect i)).1.collector? j else s.collector? j := by
    unfold refresh
    split
    · exact s.collector?_collect_idle focus j
    · rfl
  unfold object
  cases runtime : r.runtime? with
  | none =>
    have empty : r.binding = none := Option.map_eq_none_iff.mp runtime
    have direct : r.isIndirect = false := by
      rw [WeakReference.isIndirect, WeakReference.affiliation?, empty]
      rfl
    rw [direct]
    rfl
  | some y =>
    dsimp only
    rw [if_pos (alive y runtime)]
    exact (collector?_congr (leavesHeaps_read _ i r).collectors j).trans refreshed

/-- On a target that was found a definition is kept, behind what is pending there, and the
affiliation is that of the reference. -/
theorem define_found (boundKept : BoundKept i ⟨s, none, [], []⟩)
    (ofHeap : AllThrough i ⟨s, none, [], []⟩)
    (here : s.collector? i = some c) {p : Place} (held : s.held p = some r)
    (target : s.target? r = some t) (focus : Focus) (f : Finalizer) :
    ∃ heap a, c.heap.define t f = .kept heap a ∧ r.affiliation? = some a ∧
      s.define focus i t f = (s.setCollector i { c with heap }, .ok a) := by
  obtain ⟨b, binding, bound⟩ := binding_of_target? target
  have runtime := (ofHeap p r b ((Moment.held_atRest s p).trans held) binding).2 c here
  have keptOnce := keptInHeap_of_bound boundKept here held binding runtime bound
  have plain := boundKept.plain c here
  have takes : b.affiliation.kind ≠ .immediate := by cases b.affiliation <;> exact nofun
  obtain ⟨heap, a, kept, kind⟩ := Heap.define_live keptOnce.live takes f
  have own : a = b.affiliation := by
    cases a <;> cases affiliation : b.affiliation <;> simp_all [Affiliation.kind]
  refine ⟨heap, a, kept, ?_, ?_⟩
  · rw [WeakReference.affiliation?, binding, own]
    rfl
  · rw [define_pass here plain.nextDirective, kept, plain.advance]

/-- What a definition of a callback through reference `n` does, which is `ref`. -/
structure DefinesThrough (s : Session) (i n : Nat) (ref : WeakReference) (label : String)
    (actions : List Action) : Prop where
  /-- It fails just where a read finds nothing, and in one way only. -/
  fails : ∀ e, (s.perform (.refDefine i n label actions)).2 = .failed e ↔
    e = .deadObject ∧ (s.perform (.read i n)).2 = .object none
  /-- Then no more was done than to look for the target. The callback is nowhere. -/
  refused : (s.perform (.read i n)).2 = .object none →
    (s.perform (.refDefine i n label actions)).1 = (s.perform (.object i n)).1
  /-- Otherwise the callback was added behind all that was left pending on the target. -/
  attached : ∀ t, (s.perform (.read i n)).2 = .object (some t) → ∃ a c heap,
    ref.affiliation? = some a ∧ s.target? ref = some t ∧
    (s.perform (.object i n)).1.collector? i = some c ∧ c.heap.isLive t = true ∧
    s.perform (.refDefine i n label actions) =
      ((s.perform (.object i n)).1.setCollector i { c with heap }, .affiliation a) ∧
    ∀ q, heap.isLive q = c.heap.isLive q ∧
      heap.pendingOf q = c.heap.pendingOf q ++ if q = t then [.user label actions] else []
  /-- Nothing ran but what the look for the target runs. -/
  silent : (s.perform (.refDefine i n label actions)).1.runs = (s.perform (.object i n)).1.runs
  /-- An indirect binding takes a collection, a direct one reclaims nothing. -/
  reclaims : ∀ j q, (s.perform (.refDefine i n label actions)).1.isLiveIn j q =
    if ref.isIndirect then (s.perform (.collect i)).1.isLiveIn j q else s.isLiveIn j q

section DefinesThrough
variable {n : Nat} {ref : WeakReference} {label : String} {actions : List Action}
variable (boundKept : BoundKept i ⟨s, none, [], []⟩) (ofHeap : AllThrough i ⟨s, none, [], []⟩)
variable (here : s.collector? i = some c) (there : s.ref? n = some ref)
variable (alive : ∀ y, ref.runtime? = some y → s.isAlive y = true)
include boundKept ofHeap here there alive

theorem defineOn_found (found : (s.read i ref).2 = some t) (f : Finalizer) : ∃ a c' heap,
    ref.affiliation? = some a ∧ (s.perform (.object i n)).1.collector? i = some c' ∧ c'.IsPlain ∧
    c'.heap.Sound ∧ c'.heap.define t f = .kept heap a ∧
    s.defineOn (.reference n) i ref f =
      ((s.perform (.object i n)).1.setCollector i { c' with heap }, .ok a) := by
  have performed : s.perform (.object i n) = ((s.object (.reference n) i ref).1,
    .object (s.object (.reference n) i ref).2) := withRef_of_ref? there _
  have quiet : (Op.object i n).scripts i = false := rfl
  have through : ∀ op ∈ [Op.object i n], op.bindsThrough i = true := by
    simp [Op.bindsThrough, Op.target?]
  have boundKept' := boundKept_perform boundKept quiet
  have ofHeap' := ofHeap.run boundKept.ownership through
  change AllThrough i ⟨(s.perform (.object i n)).1, none, [], []⟩ at ofHeap'
  rw [performed] at boundKept' ofHeap' ⊢
  dsimp only at boundKept' ofHeap' ⊢
  have answer := (object_eq_read boundKept ofHeap here (p := .ref n) there (.reference n)
    alive).trans
    found
  have stays := (stableView_held (.reference n)).object s i ref
  obtain ⟨c', after⟩ : ∃ c', (s.object (.reference n) i ref).1.collector? i = some c' := by
    rw [collector?_object alive]
    split
    · exact ⟨_, collector?_collect here .idle⟩
    · exact ⟨c, here⟩
  obtain ⟨heap, a, kept, own, done⟩ := define_found boundKept' ofHeap' after (stays.trans there)
    (object_found answer after).1 (.reference n) f
  refine ⟨a, c', heap, own, after, boundKept'.plain c' after, boundKept'.ownership.heaps i c' after,
    kept, ?_⟩
  unfold defineOn
  dsimp only
  rw [answer]
  exact done

theorem definesThrough (label : String) (actions : List Action) :
    s.DefinesThrough i n ref label actions := by
  have look : s.perform (.object i n) = ((s.object (.reference n) i ref).1,
    .object (s.object (.reference n) i ref).2) := withRef_of_ref? there _
  have read : (s.perform (.read i n)).2 = .object (s.read i ref).2 :=
    congrArg Prod.snd (withRef_of_ref? there _)
  have performed : s.perform (.refDefine i n label actions) =
      ((s.defineOn (.reference n) i ref (.user label actions)).1,
        attachedReply (s.defineOn (.reference n) i ref (.user label actions)).2) :=
    withRef_of_ref? there _
  have looked (j : Nat) (q : ObjectRef) : (s.perform (.object i n)).1.isLiveIn j q =
      if ref.isIndirect then (s.perform (.collect i)).1.isLiveIn j q else s.isLiveIn j q := by
    unfold isLiveIn
    rw [look, collector?_object alive]
    split <;> rfl
  cases found : (s.read i ref).2 with
  | none =>
    have answer := (object_eq_read boundKept ofHeap here (p := .ref n) there (.reference n)
      alive).trans
      found
    have refused : s.defineOn (.reference n) i ref (.user label actions) =
        ((s.perform (.object i n)).1, .error .deadObject) := by
      rw [look]
      unfold defineOn
      dsimp only
      rw [answer]
    rw [found] at read
    rw [refused] at performed
    refine ⟨fun e => ?_, fun _ => ?_, fun t found => ?_, ?_, fun j q => ?_⟩
    · rw [performed, read]
      exact ⟨fun same => ⟨(Reply.failed.inj same).symm, rfl⟩, fun same => congrArg Reply.failed
        same.1.symm⟩
    · rw [performed]
    · rw [read] at found
      cases found
    · rw [performed]
    · rw [performed]
      exact looked j q
  | some t =>
    obtain ⟨a, c', heap, own, after, plain, sound, kept, done⟩ :=
      defineOn_found boundKept ofHeap here there alive found (.user label actions)
    rw [found] at read
    rw [done] at performed
    have live := Heap.isLive_of_kept kept
    refine ⟨fun e => ?_, fun nothing => ?_, fun t' found' => ?_, ?_, fun j q => ?_⟩
    · rw [performed, read]
      exact ⟨nofun, fun both => nomatch both.2⟩
    · rw [read] at nothing
      cases nothing
    · rw [read] at found'
      cases found'
      exact ⟨a, c', heap, own, target?_of_read found, after, live, performed, fun q =>
        ⟨Heap.isLive_define kept q, Heap.pendingOf_define_eq sound kept q⟩⟩
    · rw [performed]
      rfl
    · rw [performed, ← looked]
      unfold isLiveIn
      rw [collector?_setCollector _ after]
      split
      · rename_i same
        rw [same, after]
        exact Heap.isLive_define kept q
      · rfl

end DefinesThrough

end Session

/-- To define a callback through a reference fails just where a read finds nothing. Otherwise the
callback is pending on the target, and runs once, in the operation that ends the target. -/
theorem refDefine_attaches_or_refuses {ops : List Op} {i : Nat}
    (plain : ∀ op ∈ ops, op.scripts i = false) (only : ∀ op ∈ ops, op.bindsThrough i = true)
    {s : Session} (run : s = Session.after {} ops) {c : Collector} (here : s.collector? i = some c)
    {n : Nat} {ref : WeakReference} (there : s.ref? n = some ref)
    (alive : ∀ y, ref.runtime? = some y → s.isAlive y = true) (label : String)
    (actions : List Action) {s' : Session}
    (done : s' = (s.perform (.refDefine i n label actions)).1) :
    s.DefinesThrough i n ref label actions ∧
    ∀ later, (∀ op ∈ later, op.scripts i = false) →
      (∀ t, (s.perform (.read i n)).2 = .object (some t) → Session.Honours i t s' later) ∧
      ((∀ op ∈ ops ++ later, op.defines? ≠ some (.user label actions)) →
        ((s.perform (.read i n)).2 = .object none →
          .user label actions ∉ (s'.after later).runs) ∧
        ∀ t, (s.perform (.read i n)).2 = .object (some t) →
          Session.RunsOnce i (.user label actions) t s' later) := by
  have boundKept : BoundKept i ⟨s, none, [], []⟩ := run ▸ Session.boundKept_after plain
  have ofHeap : AllThrough i ⟨s, none, [], []⟩ := run ▸ AllThrough.empty.run ownership_empty only
  have definesThrough := Session.definesThrough boundKept ofHeap here there alive label actions
  have runBalance := Session.RunBalance.start.run plain
  rw [← run] at runBalance
  have quiet : (Op.refDefine i n label actions).scripts i = false := rfl
  have runBalance' := runBalance.perform quiet
  rw [← done] at runBalance'
  refine ⟨definesThrough, fun later unscripted => ⟨fun t _ => runBalance'.honours unscripted,
    fun fresh => ?_⟩⟩
  have before := (Ran.empty (.user label actions)).run ownership_empty fun op listed =>
    fresh op (List.mem_append_left _ listed)
  rw [← run] at before
  have looks : ∀ op ∈ [Op.object i n], op.defines? ≠ some (.user label actions) := by
    simp [Op.defines?]
  have looked : Ran (.user label actions) 0 ⟨(s.perform (.object i n)).1, none, [], []⟩ :=
    before.run boundKept.ownership looks
  have others (op : Op) (listed : op ∈ later) : op.defines? ≠ some (.user label actions) :=
    fresh op (List.mem_append_right _ listed)
  refine ⟨fun nothing => ?_, fun t found => ?_⟩
  · have same := done.trans (definesThrough.refused nothing)
    subst same
    exact Array.count_eq_zero.mp (looked.run runBalance'.ownership others).count
  · have read : (s.perform (.read i n)).2 = .object (s.read i ref).2 :=
      congrArg Prod.snd (Session.withRef_of_ref? there _)
    obtain ⟨a, c', heap, _, after, plain', _, kept, defined⟩ :=
      Session.defineOn_found boundKept ofHeap
      here there alive (Reply.object.inj (read.symm.trans found)) (.user label actions)
    have attached : s' = (s.perform (.object i n)).1.setCollector i { c' with heap } := by
      refine done.trans ((congrArg Prod.fst (Session.withRef_of_ref? there _)).trans ?_)
      exact congrArg Prod.fst defined
    have pends := Session.Pends.of_kept looked after plain' kept
    rw [← attached] at pends
    exact pends.runsOnce runBalance' unscripted others

/-- A callback that is defined through a reference runs after one that releases this reference. -/
theorem refDefine_before_release : ∃ s c ref, s = Session.after {} [.newHeap {}, .alloc 0 .plain,
      .alloc 0 .plain, .newRefTo 0 ⟨0, 0⟩, .newRefTo 0 ⟨1, 0⟩,
      .define 0 ⟨0, 0⟩ "first" [.release 0], .release 0 ⟨1, 0⟩] ∧
    s.collector? 0 = some c ∧ s.ref? 0 = some ref ∧
    s.DefinesThrough 0 0 ref "watch" [.isBound 0] ∧
    Session.RunsOnce 0 (.user "watch" [.isBound 0]) ⟨0, 0⟩
      (s.perform (.refDefine 0 0 "watch" [.isBound 0])).1 [.release 0 ⟨0, 0⟩, .collect 0] ∧
    ((s.perform (.refDefine 0 0 "watch" [.isBound 0])).1.after
      [.release 0 ⟨0, 0⟩, .collect 0]).runs = #[.endBinding 1 ⟨2⟩, .endBinding 0 ⟨1⟩,
        .user "first" [.release 0], .user "watch" [.isBound 0]] ∧
    (s.perform (.refDefine 0 1 "watch" [.isBound 0])).2 = .failed .deadObject := by
  obtain ⟨s, run⟩ : ∃ s, s = Session.after {} [.newHeap {}, .alloc 0 .plain,
    .alloc 0 .plain, .newRefTo 0 ⟨0, 0⟩, .newRefTo 0 ⟨1, 0⟩, .define 0 ⟨0, 0⟩ "first" [.release 0],
    .release 0 ⟨1, 0⟩] := ⟨_, rfl⟩
  obtain ⟨c, here⟩ : ∃ c, s.collector? 0 = some c := by
    rw [run]
    exact ⟨_, rfl⟩
  have there : s.ref? 0 = some ⟨⟨1⟩, some ⟨0, .indirect, ⟨1⟩, 0⟩⟩ := by
    rw [run]
    decide +kernel
  have alive : s.isAlive ⟨1⟩ = true := by
    rw [run]
    decide +kernel
  have found : (s.perform (.read 0 0)).2 = .object (some ⟨0, 0⟩) := by
    rw [run]
    decide +kernel
  obtain ⟨definesThrough, later⟩ := refDefine_attaches_or_refuses (by decide)
    (by decide) run here there
    (fun y same => Option.some.inj same ▸ alive) "watch" [.isBound 0] rfl
  obtain ⟨_, once⟩ := later [.release 0 ⟨0, 0⟩, .collect 0] (by decide)
  refine ⟨s, c, _, run, here, there, definesThrough, (once (by decide)).2 _ found, ?_⟩
  rw [run]
  decide +kernel

end WeakRefs
